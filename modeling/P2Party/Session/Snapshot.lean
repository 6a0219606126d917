import P2Party.Cryptography.RatchetInvariant
import P2Party.PqHealing.Checkpoint
import P2Party.Session.Session

/-!
# Session snapshots (`session.ts`)

A snapshot is the ratchet and the checkpoint of the healing runtime in one byte
string. `serialize` refuses counters that are not safe integers and runtimes with
too many active receive keys; `restoreSession` refuses everything that is not the
encoding of a snapshot.

- `serialize`, `restoreSession`: the operations of the source;
- `WellFormed`, `SnapshotFits`: what every session of a run satisfies, and what
  `serialize` needs on top of that;
- `encodeSessionSnapshot_eq`, `serialize_run`: the bytes of a snapshot, and when there are any;
- `restoreSession_encode`: restoring a snapshot gives the session back, with its
  active keys in sorted order.
-/

namespace P2Party

open Base PqHealing PqHealingRuntime

namespace Session

/-! ## Constants (session.ts:62-101) -/

/-- `SESSION_SNAPSHOT_VERSION`. -/
abbrev SESSION_SNAPSHOT_VERSION : Nat := 4

/-- `SESSION_MAGIC`. -/
def SESSION_MAGIC : Bytes := [0x50, 0x32, 0x50, 0x53, 0x45, 0x53, 0x53, 0x00]

/-- `SNAPSHOT_MAX_PQ_CHECKPOINT_BYTES`. -/
abbrev SNAPSHOT_MAX_PQ_CHECKPOINT_BYTES : Nat := 256 * 1024

/-- `SNAPSHOT_SKIPPED_ENTRY_LEN`. -/
abbrev SNAPSHOT_SKIPPED_ENTRY_LEN : Nat := 72

/-- `snapshotSuiteTag` (session.ts:808-816). -/
def snapshotSuiteTag : RatchetRootSuite → Nat
  | .hybridMlkem768 => 3
  | .hybridMlkem512 => 4
  | .hybridMlkem1024 => 5

/-- `snapshotTagRootSuite` (session.ts:818-826). -/
def snapshotTagRootSuite (tag : Nat) : Except JsError RatchetRootSuite :=
  if tag = 3 then .ok .hybridMlkem768
  else if tag = 4 then .ok .hybridMlkem512
  else if tag = 5 then .ok .hybridMlkem1024
  else .error (.error "snapshot: unsupported root suite")

/-- The flag byte (session.ts:843-847): sending chain, receiving chain, remote key,
initiator. -/
def snapshotFlags (sending receiving remote initiator : Bool) : Nat :=
  (if sending then 1 else 0) + (if receiving then 2 else 0) + (if remote then 4 else 0) +
    (if initiator then 8 else 0)

/-! ## Writing -/

/-- `requireBytes` on a key that may be absent (session.ts:777-782). -/
def requireOptional (value : Option Bytes) (name : String) : Except JsError Unit :=
  match value with
  | none => .ok ()
  | some value => requireBytes value name 32

/-- `validateSnapshotState` (session.ts:773-800). -/
def validateSnapshotState (state : RatchetState) : Except JsError Unit := do
  requireBytes state.rootKey "snapshot.rootKey" 32
  requireBytes state.dhSelfPub "snapshot.dhSelfPub" 32
  requireBytes state.dhSelfSec "snapshot.dhSelfSec" 32
  requireOptional state.sendingChainKey "snapshot.sendingChainKey"
  requireOptional state.receivingChainKey "snapshot.receivingChainKey"
  requireOptional state.dhRemotePub "snapshot.dhRemotePub"
  requireSafeUint state.Ns "snapshot.Ns"
  requireSafeUint state.Nr "snapshot.Nr"
  requireSafeUint state.PN "snapshot.PN"
  demand (¬ ((state.sendingChainKey.isSome ∨ state.receivingChainKey.isSome ∨
      0 < state.skipped.size) ∧ state.dhRemotePub = none))
    (.error "snapshot: chain state requires a remote DH key")
  demand (¬ state.skipped.size > MAX_SKIP_SESSION) (.error "snapshot: too many skipped message keys")

/-- `writeU64` (session.ts:802-806). -/
def writeU64 (value : Nat) : Except JsError Bytes := do
  requireSafeUint value "snapshot counter"
  return beBytes 8 value

/-- One skipped key (session.ts:886-897). -/
def encodeSkipped (skipped : SkippedMessageKey) : Except JsError Bytes := do
  requireBytes skipped.dhPub "snapshot.skipped.dhPub" 32
  requireBytes skipped.messageKey "snapshot.skipped.messageKey" 32
  let n ← writeU64 skipped.n
  return skipped.dhPub ++ (n ++ skipped.messageKey)

/-- `encodeSessionSnapshot` (session.ts:828-917) with the result of `pq.serialize()` as an
argument. -/
def encodeSnapshotOf (state : RatchetState) (pqSerialize : Except JsError Bytes)
    (amInitiator : Bool) : Except JsError Bytes := do
  validateSnapshotState state
  let serialized := serializeRatchet state
  let pqCheckpoint ← pqSerialize
  demand (¬ (pqCheckpoint.length = 0 ∨ pqCheckpoint.length > SNAPSHOT_MAX_PQ_CHECKPOINT_BYTES))
    (.error "snapshot: PQ checkpoint length is invalid")
  let flags := snapshotFlags serialized.sendingChainKey.isSome serialized.receivingChainKey.isSome
    serialized.dhRemotePub.isSome amInitiator
  let ns ← writeU64 serialized.Ns
  let nr ← writeU64 serialized.Nr
  let pn ← writeU64 serialized.PN
  let skipped ← serialized.skippedMessageKeys.mapM encodeSkipped
  return SESSION_MAGIC ++ (beBytes 1 SESSION_SNAPSHOT_VERSION ++ (beBytes 1 PROTOCOL_VERSION ++
    (beBytes 1 flags ++ (beBytes 1 (snapshotSuiteTag serialized.rootSuite) ++ (ns ++ (nr ++ (pn ++
    (serialized.rootKey ++ (serialized.sendingChainKey.getD [] ++
    (serialized.receivingChainKey.getD [] ++ (serialized.dhSelfPub ++ (serialized.dhSelfSec ++
    (serialized.dhRemotePub.getD [] ++ (beBytes 2 serialized.skippedMessageKeys.length ++
    (skipped.flatten ++ (beBytes 4 pqCheckpoint.length ++ pqCheckpoint))))))))))))))))

/-- `encodeSessionSnapshot` (session.ts:828-917). -/
def encodeSessionSnapshot (state : RatchetState) (pq : SparsePqHealingState) (amInitiator : Bool) :
    Except JsError Bytes :=
  encodeSnapshotOf state (pq.serialize pq.activeReceiveKeys) amInitiator

/-- `serialize` (session.ts:751-756). -/
def serialize : SessionM Bytes := do
  assertLive
  let s ← get
  attempt (encodeSessionSnapshot s.state s.pq s.amInitiator)

/-! ## Reading -/

/-- Code that reads a snapshot. -/
abbrev Reader (α : Type) := EStateM JsError Bytes α

/-- `take` (session.ts:934-947). -/
def take (length : Nat) : Reader Bytes := getBytes (.error "snapshot: truncated input") length

/-- One byte. -/
def takeByte : Reader Nat := getUint (.error "snapshot: truncated input") 1

/-- `readU64` (session.ts:953-965). -/
def readU64 : Reader Nat := do
  let value ← getUint (.error "snapshot: truncated counter") 8
  ensure (value ≤ MAX_SAFE_INTEGER) (.error "snapshot: counter exceeds safe-integer range")
  return value

/-- A key that is there when its flag is set. -/
def takeOptional (present : Bool) : Reader (Option Bytes) := do
  if present then return some (← take 32) else return none

/-- The fields before the skipped keys (session.ts:968-999). -/
structure SnapshotHeader where
  amInitiator : Bool
  secrets : RatchetSessionSecrets
  skippedCount : Nat

/-- The reading part of `decodeSessionSnapshot` up to the skipped-key count
(session.ts:968-1006). -/
def readHeader : Reader SnapshotHeader := do
  let magic ← take SESSION_MAGIC.length
  ensure (magic = SESSION_MAGIC) (.error "snapshot: invalid magic")
  let version ← takeByte
  ensure (version = SESSION_SNAPSHOT_VERSION) (.error "snapshot: unsupported snapshot version")
  let protocol ← takeByte
  ensure (protocol = PROTOCOL_VERSION) (.error "snapshot: unsupported protocol version")
  let flags ← takeByte
  ensure (flags < 16) (.error "snapshot: unknown flags")
  let rootSuite ← attempt (snapshotTagRootSuite (← takeByte))
  let Ns ← readU64
  let Nr ← readU64
  let PN ← readU64
  let rootKey ← take 32
  let sendingChainKey ← takeOptional (flags.testBit 0)
  let receivingChainKey ← takeOptional (flags.testBit 1)
  let dhSelfPub ← take 32
  let dhSelfSec ← take 32
  let dhRemotePub ← takeOptional (flags.testBit 2)
  ensure (¬ ((sendingChainKey.isSome ∨ receivingChainKey.isSome) ∧ dhRemotePub = none))
    (.error "snapshot: chain state requires a remote DH key")
  let skippedCount ← getUint (.error "snapshot: missing skipped-key count") 2
  ensure (¬ skippedCount > MAX_SKIP_SESSION) (.error "snapshot: too many skipped message keys")
  ensure (¬ (dhRemotePub = none ∧ skippedCount > 0))
    (.error "snapshot: skipped keys require a remote DH key")
  return {
    amInitiator := flags.testBit 3
    secrets := { rootSuite, rootKey, sendingChainKey, receivingChainKey, dhSelfPub, dhSelfSec,
                 dhRemotePub, Ns, Nr, PN, skippedMessageKeys := [] }
    skippedCount }

/-- The loop over the skipped keys (session.ts:1016-1037): the keys so far, oldest
first, are also the set of names seen. -/
def readSkippedLoop : Nat → List SkippedMessageKey → Reader (List SkippedMessageKey)
  | 0, seen => return seen
  | count + 1, seen => do
    let dhPub ← take 32
    let n ← readU64
    let messageKey ← take 32
    ensure (∀ e ∈ seen, skippedKey e.dhPub e.n ≠ skippedKey dhPub n)
      (.error "snapshot: duplicate skipped message key")
    readSkippedLoop count (seen ++ [{ dhPub, n, messageKey }])

/-- `DecodedSessionSnapshot` (session.ts:919-923). -/
structure DecodedSessionSnapshot where
  state : RatchetState
  pqCheckpoint : Bytes
  amInitiator : Bool

/-- The rest of `decodeSessionSnapshot` (session.ts:1007-1070). -/
def readTail (header : SnapshotHeader) : Reader DecodedSessionSnapshot := do
  ensure (header.skippedCount * SNAPSHOT_SKIPPED_ENTRY_LEN + 4 ≤ (← get).length)
    (.error "snapshot: truncated input")
  let skippedMessageKeys ← readSkippedLoop header.skippedCount []
  -- a `DataView` without a check of its own: outside the buffer its constructor throws
  let pqCheckpointLength ← getUint (.rangeError "Start offset is outside the bounds of the buffer") 4
  ensure (¬ (pqCheckpointLength = 0 ∨ pqCheckpointLength > SNAPSHOT_MAX_PQ_CHECKPOINT_BYTES))
    (.error "snapshot: PQ checkpoint length is invalid")
  ensure ((← get).length = pqCheckpointLength)
    (.error "snapshot: truncated input or trailing bytes")
  let pqCheckpoint ← take pqCheckpointLength
  return {
    state := deserializeRatchet { header.secrets with skippedMessageKeys }
    pqCheckpoint
    amInitiator := header.amInitiator }

/-- `decodeSessionSnapshot` (session.ts:925-1071). -/
def decodeSessionSnapshot (snapshot : Bytes) : Except JsError DecodedSessionSnapshot :=
  match (readHeader >>= readTail).run snapshot with
  | .ok decoded _ => .ok decoded
  | .error e _ => .error e

/-- `readCheckpointBinding` (pqHealingRuntime.ts:1023-1030). -/
def readCheckpointBinding (bytes : Bytes) : Except JsError Bytes := do
  demand (60 ≤ bytes.length)
    (PqHealingRuntime.failure "checkpoint is too short to contain a binding")
  return slice bytes 28 32

/-- `restoreSession` (session.ts:1208-1252). -/
def restoreSession (snapshot : Bytes) : Except JsError Session := do
  let decoded ← decodeSessionSnapshot snapshot
  let binding ← readCheckpointBinding decoded.pqCheckpoint
  let pq ← SparsePqHealingState.restore decoded.pqCheckpoint {
    pqMode := rootSuiteToRoomPqMode decoded.state.rootSuite
    rootSuite := decoded.state.rootSuite
    binding
    amInitiator := decoded.amInitiator }
  return { amInitiator := decoded.amInitiator, state := decoded.state, pq, destroyed := false }

/-! ## Well-formed sessions -/

/-- What every session of a run satisfies. -/
structure WellFormed (s : Session) : Prop where
  live : s.destroyed = false
  ratchet : RatchetOk s.state
  runtime : s.pq.WellFormed
  keys : ActiveKeysOk s.pq.activeReceiveKeys
  suite : s.pq.rootSuite = s.state.rootSuite
  role : s.pq.amInitiator = s.amInitiator

/-- What a snapshot can hold: safe counters and not too many active keys. -/
structure SnapshotFits (s : Session) : Prop where
  Ns : s.state.Ns ≤ MAX_SAFE_INTEGER
  Nr : s.state.Nr ≤ MAX_SAFE_INTEGER
  PN : s.state.PN ≤ MAX_SAFE_INTEGER
  keys : s.pq.activeReceiveKeys.size ≤ MAX_ACTIVE_RECEIVE_KEYS

/-! ## The bytes of a snapshot -/

/-- A skipped key: public key, index, message key. -/
def skippedBytes (e : SkippedMessageKey) : Bytes := e.dhPub ++ (beBytes 8 e.n ++ e.messageKey)

/-- The fields before the skipped keys. -/
def headerBytes (secrets : RatchetSessionSecrets) (amInitiator : Bool) : Bytes :=
  SESSION_MAGIC ++ (beBytes 1 SESSION_SNAPSHOT_VERSION ++ (beBytes 1 PROTOCOL_VERSION ++
    (beBytes 1 (snapshotFlags secrets.sendingChainKey.isSome secrets.receivingChainKey.isSome
      secrets.dhRemotePub.isSome amInitiator) ++ (beBytes 1 (snapshotSuiteTag secrets.rootSuite) ++
    (beBytes 8 secrets.Ns ++ (beBytes 8 secrets.Nr ++ (beBytes 8 secrets.PN ++ (secrets.rootKey ++
    (secrets.sendingChainKey.getD [] ++ (secrets.receivingChainKey.getD [] ++ (secrets.dhSelfPub ++
    (secrets.dhSelfSec ++ (secrets.dhRemotePub.getD [] ++
    beBytes 2 secrets.skippedMessageKeys.length)))))))))))))

/-- The skipped keys and the checkpoint. -/
def tailBytes (skipped : List SkippedMessageKey) (checkpoint : Bytes) : Bytes :=
  skipped.flatMap skippedBytes ++ (beBytes 4 checkpoint.length ++ checkpoint)

/-- The snapshot of a session. -/
def snapshotBytes (s : Session) : Bytes :=
  headerBytes (serializeRatchet s.state) s.amInitiator ++
    tailBytes (serializeRatchet s.state).skippedMessageKeys
      (encodeCheckpoint s.pq s.pq.activeReceiveKeys)

variable {s : Session} {state : RatchetState}

/-- A stored skipped key of a well-formed ratchet fits its place. -/
theorem skipped_fits (h : RatchetOk state) {e : SkippedMessageKey}
    (he : e ∈ (serializeRatchet state).skippedMessageKeys) :
    e.dhPub.length = 32 ∧ e.n ≤ MAX_SAFE_INTEGER ∧ e.messageKey.length = 32 := by
  obtain ⟨entry, hentry, rfl⟩ := List.mem_map.mp he
  obtain ⟨dhPub, n, hkey, hdh, hn, hmk⟩ := h.skipped entry hentry
  rw [hkey, splitSkippedKey_skippedKey]
  exact ⟨hdh, hn, hmk⟩

theorem encodeSkipped_eq {e : SkippedMessageKey} (hdh : e.dhPub.length = 32)
    (hn : e.n ≤ MAX_SAFE_INTEGER) (hmk : e.messageKey.length = 32) :
    encodeSkipped e = .ok (skippedBytes e) := by
  unfold encodeSkipped writeU64 requireBytes requireSafeUint
  simp only [demand_of hdh, demand_of hmk, demand_of hn, ok_bind]
  rfl

theorem requireOptional_eq {value : Option Bytes} {name : String}
    (h : ∀ key ∈ value, key.length = 32) : requireOptional value name = .ok () := by
  cases value with
  | none => rfl
  | some key => exact demand_of (h key rfl)

theorem validateSnapshotState_eq (h : RatchetOk state) (hNs : state.Ns ≤ MAX_SAFE_INTEGER)
    (hNr : state.Nr ≤ MAX_SAFE_INTEGER) (hPN : state.PN ≤ MAX_SAFE_INTEGER) :
    validateSnapshotState state = .ok () := by
  have hlinked : ¬ ((state.sendingChainKey.isSome = true ∨ state.receivingChainKey.isSome = true ∨
      0 < state.skipped.size) ∧ state.dhRemotePub = none) := fun hbad => h.linked hbad.1 hbad.2
  have hsize : ¬ state.skipped.size > MAX_SKIP_SESSION := Nat.not_lt.mpr h.size
  unfold validateSnapshotState requireBytes requireSafeUint
  simp only [demand_of h.rootKey, demand_of h.dhSelfPub, demand_of h.dhSelfSec,
    requireOptional_eq h.sending, requireOptional_eq h.receiving, requireOptional_eq h.remote,
    demand_of hNs, demand_of hNr, demand_of hPN, demand_of hlinked, demand_of hsize, ok_bind]

/-- Only unsafe counters fail the validation of a well-formed ratchet. -/
theorem validateSnapshotState_ok (hok : validateSnapshotState state = .ok ()) :
    state.Ns ≤ MAX_SAFE_INTEGER ∧ state.Nr ≤ MAX_SAFE_INTEGER ∧ state.PN ≤ MAX_SAFE_INTEGER := by
  unfold validateSnapshotState at hok
  iterate 6 obtain ⟨_, -, hok⟩ := except_bind_eq_ok.mp hok
  obtain ⟨_, hNs, hok⟩ := except_bind_eq_ok.mp hok
  obtain ⟨_, hNr, hok⟩ := except_bind_eq_ok.mp hok
  obtain ⟨_, hPN, -⟩ := except_bind_eq_ok.mp hok
  exact ⟨demand_eq_ok.mp hNs, demand_eq_ok.mp hNr, demand_eq_ok.mp hPN⟩

/-- The bytes of a snapshot, for a state that fits it. -/
theorem encodeSnapshotOf_eq {checkpoint : Bytes} {amInitiator : Bool} (h : RatchetOk state) (hNs : state.Ns ≤ MAX_SAFE_INTEGER)
    (hNr : state.Nr ≤ MAX_SAFE_INTEGER) (hPN : state.PN ≤ MAX_SAFE_INTEGER)
    (hpos : checkpoint.length ≠ 0) (hmax : checkpoint.length ≤ SNAPSHOT_MAX_PQ_CHECKPOINT_BYTES) :
    encodeSnapshotOf state (.ok checkpoint) amInitiator =
      .ok (headerBytes (serializeRatchet state) amInitiator ++
        tailBytes (serializeRatchet state).skippedMessageKeys checkpoint) := by
  have hvalid := validateSnapshotState_eq h hNs hNr hPN
  have hlen : ¬ (checkpoint.length = 0 ∨ checkpoint.length > SNAPSHOT_MAX_PQ_CHECKPOINT_BYTES) := by
    rintro (hzero | hlong)
    · exact hpos hzero
    · exact absurd hmax (Nat.not_le_of_gt hlong)
  have hskipped : (serializeRatchet state).skippedMessageKeys.mapM encodeSkipped =
      .ok ((serializeRatchet state).skippedMessageKeys.map skippedBytes) :=
    mapM_ok fun e he => by
      obtain ⟨hdh, hn, hmk⟩ := skipped_fits h he
      exact encodeSkipped_eq hdh hn hmk
  unfold encodeSnapshotOf writeU64 requireSafeUint
  simp only [hvalid, demand_of hlen, hskipped, ok_bind,
    demand_of (show (serializeRatchet state).Ns ≤ MAX_SAFE_INTEGER from hNs),
    demand_of (show (serializeRatchet state).Nr ≤ MAX_SAFE_INTEGER from hNr),
    demand_of (show (serializeRatchet state).PN ≤ MAX_SAFE_INTEGER from hPN)]
  show Except.ok _ = Except.ok _
  rw [Except.ok.injEq, headerBytes, tailBytes, List.flatMap_def]
  simp only [List.append_assoc]

theorem encodeSessionSnapshot_eq (h : s.WellFormed) (hfits : s.SnapshotFits) :
    encodeSessionSnapshot s.state s.pq s.amInitiator = .ok s.snapshotBytes := by
  obtain ⟨hpos, hmax⟩ := length_encodeCheckpoint h.runtime h.keys hfits.keys
  rw [encodeSessionSnapshot, serialize_eq h.runtime h.keys hfits.keys]
  exact encodeSnapshotOf_eq h.ratchet hfits.Ns hfits.Nr hfits.PN (Nat.ne_of_gt hpos) hmax

/-- What `serialize` needs: nothing but counters and keys that fit. -/
theorem fits_of_encode (h : s.WellFormed) {bytes : Bytes}
    (hok : encodeSessionSnapshot s.state s.pq s.amInitiator = .ok bytes) : s.SnapshotFits := by
  unfold encodeSessionSnapshot encodeSnapshotOf at hok
  obtain ⟨_, hvalid, hok⟩ := except_bind_eq_ok.mp hok
  obtain ⟨checkpoint, hcheckpoint, -⟩ := except_bind_eq_ok.mp hok
  obtain ⟨hNs, hNr, hPN⟩ := validateSnapshotState_ok hvalid
  refine ⟨hNs, hNr, hPN, ?_⟩
  by_contra hmany
  rw [serialize_too_many_keys h.runtime (Nat.lt_of_not_le hmany)] at hcheckpoint
  cases hcheckpoint

/-- `serialize` succeeds exactly on sessions that fit a snapshot, and changes
nothing. -/
theorem serialize_run (h : s.WellFormed) :
    (s.SnapshotFits → serialize.run s = .ok s.snapshotBytes s) ∧
      (¬ s.SnapshotFits → ∃ e, serialize.run s = .error e s) := by
  have hrun : serialize.run s =
      (attempt (encodeSessionSnapshot s.state s.pq s.amInitiator) : SessionM Bytes).run s := by
    unfold serialize
    rw [run_assertLive_bind h.live, run_get_bind]
  constructor
  · intro hfits
    rw [hrun, encodeSessionSnapshot_eq h hfits]
    rfl
  · intro hnot
    rw [hrun]
    cases hencode : encodeSessionSnapshot s.state s.pq s.amInitiator with
    | ok bytes => exact absurd (fits_of_encode h hencode) hnot
    | error e => exact ⟨e, rfl⟩

/-! ## Restoring a snapshot -/

theorem reads_byte {value : Nat} (h : value < 256 ^ 1) : Reads takeByte (beBytes 1 value) value :=
  reads_getUint h

theorem reads_u64 {value : Nat} (h : value ≤ MAX_SAFE_INTEGER) :
    Reads readU64 (beBytes 8 value) value :=
  (reads_getUint (Nat.lt_of_le_of_lt h (by decide))).bind_pure
    ((reads_ensure h).bind_nil (reads_pure value))

theorem reads_take {n : Nat} {value : Bytes} (h : value.length = n) : Reads (take n) value value :=
  reads_getBytes h

theorem reads_optional {value : Option Bytes} (h : ∀ key ∈ value, key.length = 32) :
    Reads (takeOptional value.isSome) (value.getD []) value := by
  cases value with
  | none => exact reads_pure none
  | some key => exact (reads_take (h key rfl)).bind_pure (reads_pure _)

/-- The flag byte says what it was built from. -/
theorem snapshotFlags_spec (sending receiving remote initiator : Bool) :
    snapshotFlags sending receiving remote initiator < 16 ∧
      (snapshotFlags sending receiving remote initiator).testBit 0 = sending ∧
      (snapshotFlags sending receiving remote initiator).testBit 1 = receiving ∧
      (snapshotFlags sending receiving remote initiator).testBit 2 = remote ∧
      (snapshotFlags sending receiving remote initiator).testBit 3 = initiator := by
  cases sending <;> cases receiving <;> cases remote <;> cases initiator <;> decide

theorem snapshotSuiteTag_lt (suite : RatchetRootSuite) : snapshotSuiteTag suite < 256 ^ 1 := by
  cases suite <;> decide

theorem snapshotTagRootSuite_suiteTag (suite : RatchetRootSuite) :
    snapshotTagRootSuite (snapshotSuiteTag suite) = .ok suite := by
  cases suite <;> rfl

theorem length_skippedMessageKeys (state : RatchetState) :
    (serializeRatchet state).skippedMessageKeys.length = state.skipped.size := List.length_map _

theorem reads_header (h : RatchetOk state) (hNs : state.Ns ≤ MAX_SAFE_INTEGER)
    (hNr : state.Nr ≤ MAX_SAFE_INTEGER) (hPN : state.PN ≤ MAX_SAFE_INTEGER) (amInitiator : Bool) :
    Reads readHeader (headerBytes (serializeRatchet state) amInitiator) {
      amInitiator
      secrets := { serializeRatchet state with skippedMessageKeys := [] }
      skippedCount := state.skipped.size } := by
  obtain ⟨hflags, hsending, hreceiving, hremote, hinitiator⟩ := snapshotFlags_spec
    (serializeRatchet state).sendingChainKey.isSome
    (serializeRatchet state).receivingChainKey.isSome
    (serializeRatchet state).dhRemotePub.isSome amInitiator
  have hcount : (serializeRatchet state).skippedMessageKeys.length < 256 ^ 2 := by
    rw [length_skippedMessageKeys]
    exact Nat.lt_of_le_of_lt h.size (by decide)
  refine (reads_take rfl).bind ((reads_ensure rfl).bind_nil ?_)
  refine (reads_byte (by decide)).bind ((reads_ensure rfl).bind_nil ?_)
  refine (reads_byte (by decide)).bind ((reads_ensure rfl).bind_nil ?_)
  refine (reads_byte (Nat.lt_of_lt_of_le hflags (by decide))).bind ((reads_ensure hflags).bind_nil ?_)
  refine (reads_byte (snapshotSuiteTag_lt _)).bind ?_
  refine (reads_attempt (snapshotTagRootSuite_suiteTag _)).bind_nil ?_
  refine (reads_u64 hNs).bind ((reads_u64 hNr).bind ((reads_u64 hPN).bind ?_))
  refine (reads_take h.rootKey).bind ?_
  rw [hsending, hreceiving, hremote, hinitiator]
  refine (reads_optional h.sending).bind ((reads_optional h.receiving).bind ?_)
  refine (reads_take h.dhSelfPub).bind ((reads_take h.dhSelfSec).bind ?_)
  refine (reads_optional h.remote).bind ((reads_ensure ?_).bind_nil ?_)
  · exact fun hbad => h.linked (hbad.1.imp_right Or.inl) hbad.2
  refine (reads_getUint hcount).bind_pure ?_
  rw [length_skippedMessageKeys]
  refine (reads_ensure (Nat.not_lt.mpr h.size)).bind_nil ((reads_ensure ?_).bind_nil (reads_pure _))
  exact fun hbad => h.linked (.inr (.inr hbad.2)) hbad.1

theorem reads_skippedLoop (es seen : List SkippedMessageKey)
    (hok : ∀ e ∈ es, e.dhPub.length = 32 ∧ e.n ≤ MAX_SAFE_INTEGER ∧ e.messageKey.length = 32)
    (hnodup : ((seen ++ es).map fun e => skippedKey e.dhPub e.n).Nodup) :
    Reads (readSkippedLoop es.length seen) (es.flatMap skippedBytes) (seen ++ es) := by
  induction es generalizing seen with
  | nil =>
    rw [List.append_nil]
    exact reads_pure seen
  | cons e es ih =>
    obtain ⟨hdh, hn, hmk⟩ := hok e List.mem_cons_self
    have hfresh : ∀ x ∈ seen, skippedKey x.dhPub x.n ≠ skippedKey e.dhPub e.n := by
      intro x hx
      rw [List.map_append, List.nodup_append] at hnodup
      exact hnodup.2.2 _ (List.mem_map_of_mem hx) _ (List.mem_map_of_mem List.mem_cons_self)
    have hrest := ih (seen ++ [e]) (fun x hx => hok x (List.mem_cons_of_mem e hx))
      (by rwa [List.append_assoc])
    rw [List.append_assoc, List.singleton_append] at hrest
    have hbytes : (e :: es).flatMap skippedBytes =
        e.dhPub ++ (beBytes 8 e.n ++ (e.messageKey ++ es.flatMap skippedBytes)) := by
      simp [skippedBytes]
    rw [hbytes]
    refine (reads_take hdh).bind ((reads_u64 hn).bind ((reads_take hmk).bind ?_))
    exact (reads_ensure hfresh).bind_nil hrest

theorem length_flatMap_skippedBytes {es : List SkippedMessageKey}
    (hok : ∀ e ∈ es, e.dhPub.length = 32 ∧ e.n ≤ MAX_SAFE_INTEGER ∧ e.messageKey.length = 32) :
    (es.flatMap skippedBytes).length = es.length * SNAPSHOT_SKIPPED_ENTRY_LEN := by
  induction es with
  | nil => rfl
  | cons e es ih =>
    obtain ⟨hdh, -, hmk⟩ := hok e List.mem_cons_self
    have hlen : (skippedBytes e).length = 72 := by
      simp [skippedBytes, hdh, hmk]
    rw [List.flatMap_cons, List.length_append, hlen,
      ih fun x hx => hok x (List.mem_cons_of_mem e hx), List.length_cons, Nat.add_mul,
      Nat.one_mul, Nat.add_comm]

/-- The names of the stored skipped keys are the names in the map. -/
theorem skippedMessageKeys_names (h : state.Canonical) :
    ((serializeRatchet state).skippedMessageKeys.map fun e => skippedKey e.dhPub e.n) =
      state.skipped.keys := by
  show List.map _ (List.map _ _) = _
  rw [List.map_map]
  refine List.map_congr_left fun e he => ?_
  obtain ⟨dhPub, n, hkey⟩ := h e he
  simp [hkey, splitSkippedKey_skippedKey]

/-- Decoding a snapshot gives back the ratchet, the checkpoint and the role. -/
theorem decodeSessionSnapshot_encode (h : s.WellFormed) (hfits : s.SnapshotFits) :
    decodeSessionSnapshot s.snapshotBytes =
      .ok ⟨s.state, encodeCheckpoint s.pq s.pq.activeReceiveKeys, s.amInitiator⟩ := by
  have hheader := reads_header h.ratchet hfits.Ns hfits.Nr hfits.PN s.amInitiator
  have hskippedOk := fun e => @skipped_fits s.state h.ratchet e
  have hnames := skippedMessageKeys_names h.ratchet.canonical
  have hloop := reads_skippedLoop (serializeRatchet s.state).skippedMessageKeys [] hskippedOk (by
    rw [List.nil_append, hnames]
    exact s.state.skipped.nodup)
  rw [length_skippedMessageKeys, List.nil_append] at hloop
  obtain ⟨hpos, hmax⟩ := length_encodeCheckpoint h.runtime h.keys hfits.keys
  rw [snapshotBytes]
  generalize encodeCheckpoint s.pq s.pq.activeReceiveKeys = checkpoint at hpos hmax ⊢
  have hlen4 : checkpoint.length < 256 ^ 4 := Nat.lt_of_le_of_lt hmax (by decide)
  have hvalid : ¬ (checkpoint.length = 0 ∨ checkpoint.length > SNAPSHOT_MAX_PQ_CHECKPOINT_BYTES) := by
    rintro (hzero | hlong)
    · exact absurd hzero (Nat.ne_of_gt hpos)
    · exact absurd hmax (Nat.not_le_of_gt hlong)
  have hroom : s.state.skipped.size * SNAPSHOT_SKIPPED_ENTRY_LEN + 4 ≤
      (tailBytes (serializeRatchet s.state).skippedMessageKeys checkpoint).length := by
    rw [tailBytes, List.length_append, length_flatMap_skippedBytes hskippedOk,
      length_skippedMessageKeys, List.length_append, length_beBytes]
    omega
  have hstate : deserializeRatchet (serializeRatchet s.state) = s.state :=
    cloneRatchet_eq h.ratchet.canonical
  have htail : (readTail {
      amInitiator := s.amInitiator
      secrets := { serializeRatchet s.state with skippedMessageKeys := [] }
      skippedCount := s.state.skipped.size }).run
      (tailBytes (serializeRatchet s.state).skippedMessageKeys checkpoint) =
        .ok ⟨s.state, checkpoint, s.amInitiator⟩ [] := by
    unfold readTail
    rw [run_get_bind, run_ensure_of hroom, tailBytes, run_bind_of_ok (hloop _),
      run_bind_of_ok ((reads_getUint hlen4) checkpoint), run_ensure_of hvalid, run_get_bind,
      run_ensure_of rfl]
    have htake := reads_take (@rfl _ checkpoint.length) []
    rw [List.append_nil] at htake
    rw [run_bind_of_ok htake]
    show EStateM.Result.ok _ _ = _
    rw [hstate]
  have hsnapshot : (readHeader >>= readTail).run
      (headerBytes (serializeRatchet s.state) s.amInitiator ++
        tailBytes (serializeRatchet s.state).skippedMessageKeys checkpoint) =
        .ok ⟨s.state, checkpoint, s.amInitiator⟩ [] := by
    rw [run_bind_of_ok (hheader _), htail]
  unfold decodeSessionSnapshot
  rw [hsnapshot]

theorem rootSuiteToRoomPqMode_inv (mode : RoomPqMode) :
    rootSuiteToRoomPqMode (roomPqModeToRootSuite mode) = mode := by
  cases mode <;> rfl

/-- The binding stands at its offset in every checkpoint. -/
theorem readCheckpointBinding_encode {r : SparsePqHealingState} (h : r.WellFormed)
    (keys : OrdMap String Bytes) :
    readCheckpointBinding (encodeCheckpoint r keys) = .ok r.binding := by
  have hbinding : r.machine.binding.length = 32 := h.machine.binding
  have hsplit : ∃ before after : Bytes, before.length = 28 ∧
      encodeCheckpoint r keys = before ++ (r.machine.binding ++ after) := by
    refine ⟨EDGE_MAGIC ++ (beBytes 1 EDGE_FORMAT_VERSION ++ (beBytes 1 (suiteTag r.suite) ++
      (beBytes 1 (if r.amInitiator then 1 else 2) ++ (beBytes 1 0 ++ (beBytes 8 r.lastHealedAt ++
      beBytes 8 r.messagesSinceHealing))))), ?after, by simp [EDGE_MAGIC], ?split⟩
    case split =>
      rw [encodeCheckpoint, encodeEdge]
      simp only [List.append_assoc]
      rfl
  obtain ⟨before, after, hbefore, hbytes⟩ := hsplit
  have hlen : 60 ≤ (encodeCheckpoint r keys).length := by
    rw [hbytes, List.length_append, List.length_append, hbefore, hbinding]
    omega
  unfold readCheckpointBinding
  rw [demand_of hlen, ok_bind, hbytes, slice_append hbefore hbinding, h.binding_eq]
  rfl

/-- The session with its active keys in sorted order: what a snapshot restores to. -/
def sorted (s : Session) : Session :=
  { s with pq := { s.pq with activeReceiveKeys := sortedKeys s.pq.activeReceiveKeys } }

/-- Restoring the snapshot of a session gives the session back, with its active
keys in sorted order. -/
theorem restoreSession_encode (h : s.WellFormed) (hfits : s.SnapshotFits) :
    restoreSession s.snapshotBytes = .ok s.sorted := by
  have hmode : rootSuiteToRoomPqMode s.state.rootSuite = s.pq.pqMode := by
    rw [← h.suite, ← h.runtime.rootSuite_eq, rootSuiteToRoomPqMode_inv]
  have hoptions : s.pq.options = ⟨rootSuiteToRoomPqMode s.state.rootSuite, s.state.rootSuite,
      s.pq.binding, s.amInitiator⟩ := by
    rw [hmode, ← h.suite, ← h.role]
    rfl
  have hrestore := restore_encodeCheckpoint h.runtime h.keys hfits.keys
  rw [hoptions] at hrestore
  unfold restoreSession
  simp only [decodeSessionSnapshot_encode h hfits, ok_bind,
    readCheckpointBinding_encode h.runtime, hrestore]
  show Except.ok _ = Except.ok _
  rw [Except.ok.injEq, sorted, ← h.live]

end Session

end P2Party
