import P2Party.PqHealing.Record

/-!
# The PQ healing machine (`cryptography/pqHealing.ts`)

`PqHealingMachine` as a state record and its methods as code that mutates it and
may throw. Key-pair and encapsulation randomness are explicit arguments. The
model is of a live object used by one caller at a time, which is what its owners'
locks provide: the `destroyed` and `busy` flags are constant there.

- `prepareOffer`, `acceptAuthenticatedOffer`, `prepareAdvance`, ...: the methods;
- `snapshot`, `restore`: the plaintext checkpoint of a machine;
- `Machine.WellFormed`: what every reachable machine satisfies;
- `restore_snapshot`: restoring the snapshot of a well-formed machine gives it back.
-/

namespace P2Party

open Base

namespace PqHealing

/-! ## State -/

/-- `PqHealingTurn` (pqHealing.ts:59). -/
inductive PqHealingTurn
  | «local»
  | remote
deriving DecidableEq, Repr

/-- `MlKemKeyPair`: the two buffers a key pair owns. -/
structure MlKemKeyPair where
  publicKey : Bytes
  secretKey : Bytes
deriving DecidableEq

/-- `InternalPhase` (pqHealing.ts:228-274). -/
inductive InternalPhase
  | idle
  | outboundOffer (dispatched : Bool) (offer : DecodedOffer) (keyPair : MlKemKeyPair)
  | inboundOffer (offer : DecodedOffer)
  | outboundAdvancePrepared (offer : DecodedOffer) (advance : DecodedAdvance) (nextRoot : Bytes)
  | outboundAdvanceAwaitingAck (offer : DecodedOffer) (advance : DecodedAdvance)
  | inboundAdvancePrepared (offer : DecodedOffer) (advance : DecodedAdvance)
      (keyPair : MlKemKeyPair) (nextRoot : Bytes)
  | inboundAdvanceAwaitingAckDispatch (advance : DecodedAdvance)
deriving DecidableEq

/-- `PqHealingMachine` (pqHealing.ts:1349-1364). -/
structure Machine where
  suite : MlKemParameterSet
  binding : Bytes
  rootKey : Bytes
  epoch : Nat
  localCounter : Nat
  remoteCounter : Nat
  nextOfferer : PqHealingTurn
  phase : InternalPhase
  lastInboundOffer : Option DecodedOffer
  lastInboundAdvance : Option DecodedAdvance
deriving DecidableEq

/-- Code that mutates one machine. -/
abbrev MachineM := EStateM JsError Machine

/-- `trafficBlocked` (pqHealing.ts:1454-1456). -/
def Machine.trafficBlocked (m : Machine) : Bool := m.phase != .idle

/-- The constructor (pqHealing.ts:1366-1390), with its default epoch and counters. -/
def Machine.new (suite : MlKemParameterSet) (binding rootKey : Bytes) (nextOfferer : PqHealingTurn)
    (epoch localCounter remoteCounter : Nat) : Except JsError Machine := do
  requireBytes binding "binding" PQ_HEALING_BINDING_BYTES
  requireBytes rootKey "PQ root" PQ_HEALING_ROOT_BYTES
  requireU64 epoch "epoch"
  requireU64 localCounter "local counter"
  requireU64 remoteCounter "remote counter"
  return { suite, binding, rootKey, epoch, localCounter, remoteCounter, nextOfferer,
           phase := .idle, lastInboundOffer := none, lastInboundAdvance := none }

/-! ## The backend and the key derivation -/

variable (L : LibCrypto)

/-- `generateKeyPair` (mlkem.ts:356-402). -/
def generateKeyPair (suite : MlKemParameterSet) (coins : Bytes) : Except JsError MlKemKeyPair :=
  match L.mlkemKeypair suite coins with
  | .ok (publicKey, secretKey) => .ok { publicKey, secretKey }
  | .error result => .error (.error
      (suite.standardName ++ " key generation failed (" ++ toString result ++ ")"))

/-- `encapsulate` (mlkem.ts:404-464): ciphertext and shared secret. -/
def encapsulate (suite : MlKemParameterSet) (publicKey coins : Bytes) :
    Except JsError (Bytes × Bytes) := do
  demand (publicKey.length = suite.publicKeyBytes) (.rangeError
    (suite.standardName ++ " public key must be exactly " ++ toString suite.publicKeyBytes ++
      " bytes"))
  match L.mlkemEncaps suite publicKey coins with
  | .ok encapsulation => .ok encapsulation
  | .error result => .error (.error
      (suite.standardName ++ " encapsulation failed (" ++ toString result ++ ")"))

/-- `decapsulate` (mlkem.ts:466-...): the shared secret. -/
def decapsulate (suite : MlKemParameterSet) (ciphertext secretKey : Bytes) :
    Except JsError Bytes := do
  demand (ciphertext.length = suite.ciphertextBytes) (.rangeError
    (suite.standardName ++ " ciphertext must be exactly " ++ toString suite.ciphertextBytes ++
      " bytes"))
  demand (secretKey.length = suite.secretKeyBytes) (.rangeError
    (suite.standardName ++ " secret key must be exactly " ++ toString suite.secretKeyBytes ++
      " bytes"))
  match L.mlkemDecaps suite ciphertext secretKey with
  | .ok sharedSecret => .ok sharedSecret
  | .error result => .error (.error
      (suite.standardName ++ " decapsulation failed (" ++ toString result ++ ")"))

/-- `KDF_DOMAIN` (pqHealing.ts:44). -/
def KDF_DOMAIN : Bytes := textEncode "p2party/pq-healing/root/v1" ++ [0]

/-- `deriveNextRoot` (pqHealing.ts:822-836). -/
def deriveNextRoot (currentRoot sharedSecret advanceRecord : Bytes) : Except JsError Bytes := do
  requireBytes currentRoot "PQ root" PQ_HEALING_ROOT_BYTES
  return L.hkdfExpand (L.hkdfExtract currentRoot sharedSecret) (KDF_DOMAIN ++ advanceRecord)
    PQ_HEALING_ROOT_BYTES

/-! ## Checks shared by the transitions -/

/-- `#assertCanStartExchange` (pqHealing.ts:1886-1890). -/
def Machine.assertCanStartExchange (m : Machine) : Except JsError Unit := do
  requireIncrementableU64 m.epoch "epoch"
  requireIncrementableU64 m.localCounter "local counter"
  requireIncrementableU64 m.remoteCounter "remote counter"

/-- `#requireExpectedCounter` (pqHealing.ts:1892-1897). -/
def Machine.requireExpectedCounter (m : Machine) (counter : Nat) : Except JsError Unit := do
  demand (¬ counter < m.remoteCounter)
    (failure .replay "record sender counter was already consumed")
  demand (¬ counter > m.remoteCounter)
    (failure .counterGap "record sender counter skips an expected transition")

/-- `#requireExpectedEpoch` (pqHealing.ts:1899-1904). -/
def Machine.requireExpectedEpoch (m : Machine) (fromEpoch : Nat) : Except JsError Unit := do
  demand (¬ fromEpoch < m.epoch) (failure .replay "record PQ epoch was already consumed")
  demand (¬ fromEpoch > m.epoch) (failure .epochGap "record skips the current PQ epoch")

/-- The OFFER a repeated slot is compared with (pqHealing.ts:1907-1914). -/
def Machine.knownOffer (m : Machine) : Option DecodedOffer :=
  match m.phase with
  | .inboundOffer offer => some offer
  | .outboundAdvancePrepared offer _ _ => some offer
  | .outboundAdvanceAwaitingAck offer _ => some offer
  | _ => m.lastInboundOffer

/-- `sameOfferSlot` (pqHealing.ts:858-861). -/
def sameOfferSlot (left right : DecodedOffer) : Bool :=
  left.senderCounter == right.senderCounter && left.fromEpoch == right.fromEpoch &&
    left.toEpoch == right.toEpoch

/-- `#rejectKnownOfferReplayOrFork` (pqHealing.ts:1906-1919). -/
def Machine.rejectKnownOfferReplayOrFork (m : Machine) (offer : DecodedOffer) :
    Except JsError Unit :=
  match m.knownOffer with
  | none => .ok ()
  | some known =>
    if ¬ sameOfferSlot offer known then .ok ()
    else if offer.bytes = known.bytes then .error (failure .replay "OFFER is an exact replay")
    else .error (failure .fork "different OFFER bytes reuse an authenticated slot")

/-- The ADVANCE a repeated slot is compared with (pqHealing.ts:1922-1928). -/
def Machine.knownAdvance (m : Machine) : Option DecodedAdvance :=
  match m.phase with
  | .inboundAdvancePrepared _ advance _ _ => some advance
  | .inboundAdvanceAwaitingAckDispatch advance => some advance
  | _ => m.lastInboundAdvance

/-- `sameAdvanceSlot` (pqHealing.ts:863-869). -/
def sameAdvanceSlot (left right : DecodedAdvance) : Bool :=
  left.senderCounter == right.senderCounter && left.fromEpoch == right.fromEpoch &&
    left.toEpoch == right.toEpoch

/-- `#rejectKnownAdvanceReplayOrFork` (pqHealing.ts:1921-1934). -/
def Machine.rejectKnownAdvanceReplayOrFork (m : Machine) (advance : DecodedAdvance) :
    Except JsError Unit :=
  match m.knownAdvance with
  | none => .ok ()
  | some known =>
    if ¬ sameAdvanceSlot advance known then .ok ()
    else if advance.bytes = known.bytes then .error (failure .replay "ADVANCE is an exact replay")
    else .error (failure .fork "different ADVANCE bytes reuse an authenticated slot")

/-! ## Transitions -/

/-- `prepareOffer` (pqHealing.ts:1563-1611), with the coins of its key pair. -/
def prepareOffer (coins : Bytes) : MachineM Bytes := do
  let m ← get
  ensure (m.phase = .idle) (failure .invalidState
    "cannot prepare an OFFER while another transition is pending")
  ensure (m.nextOfferer = .local) (failure .wrongTurn "the remote peer owns the next OFFER turn")
  attempt m.assertCanStartExchange
  let keyPair ← attempt (generateKeyPair L m.suite coins)
  attempt (requireBytes keyPair.publicKey "ML-KEM public key" m.suite.publicKeyBytes)
  attempt (requireBytes keyPair.secretKey "ML-KEM secret key" m.suite.secretKeyBytes)
  let bytes ← attempt
    (encodeOffer m.suite m.binding m.localCounter m.epoch keyPair.publicKey)
  let offer ← attempt (decodeOffer bytes m.suite (some m.binding))
  set { m with phase := .outboundOffer false offer keyPair }
  return bytes

/-- `markOfferDispatched` (pqHealing.ts:1618-1626). -/
def markOfferDispatched : MachineM Unit := do
  let m ← get
  match m.phase with
  | .outboundOffer dispatched offer keyPair =>
    ensure (dispatched = false) (failure .invalidState
      "outbound OFFER was already marked dispatched")
    set { m with phase := .outboundOffer true offer keyPair }
  | _ => throw (failure .invalidState "there is no outbound OFFER to dispatch")

/-- `acceptAuthenticatedOffer` (pqHealing.ts:1644-1657). -/
def acceptAuthenticatedOffer (record : Bytes) : MachineM Unit := do
  let m ← get
  let offer ← attempt (decodeOffer record m.suite (some m.binding))
  attempt (m.rejectKnownOfferReplayOrFork offer)
  ensure (m.phase = .idle) (failure .invalidState "another PQ healing transition is pending")
  ensure (m.nextOfferer = .remote) (failure .wrongTurn "the local peer owns the next OFFER turn")
  attempt (m.requireExpectedCounter offer.senderCounter)
  attempt (m.requireExpectedEpoch offer.fromEpoch)
  attempt m.assertCanStartExchange
  set { m with phase := .inboundOffer offer }

/-- `prepareAdvance` (pqHealing.ts:1664-1717), with the encapsulation coins. -/
def prepareAdvance (coins : Bytes) : MachineM Bytes := do
  let m ← get
  match m.phase with
  | .inboundOffer offer =>
    attempt (requireIncrementableU64 m.localCounter "local counter")
    let (ciphertext, sharedSecret) ← attempt (encapsulate L m.suite offer.publicKey coins)
    attempt (requireBytes ciphertext "ML-KEM ciphertext" m.suite.ciphertextBytes)
    attempt (requireBytes sharedSecret "ML-KEM shared secret"
      MlKemParameterSet.sharedSecretBytes)
    let bytes ← attempt (encodeAdvance m.suite m.binding m.localCounter offer ciphertext)
    let advance ← attempt (decodeAdvance bytes m.suite (some m.binding))
    let nextRoot ← attempt (deriveNextRoot L m.rootKey sharedSecret bytes)
    set { m with phase := .outboundAdvancePrepared offer advance nextRoot }
    return bytes
  | _ => throw (failure .invalidState "an authenticated inbound OFFER is required")

/-- `commitPreparedAdvance` (pqHealing.ts:1725-1744). -/
def commitPreparedAdvance : MachineM Bytes := do
  let m ← get
  match m.phase with
  | .outboundAdvancePrepared offer advance nextRoot =>
    attempt (requireBytes nextRoot "candidate PQ root" PQ_HEALING_ROOT_BYTES)
    set { m with
      rootKey := nextRoot
      epoch := advance.toEpoch
      localCounter := m.localCounter + 1
      remoteCounter := m.remoteCounter + 1
      nextOfferer := .local
      lastInboundOffer := some offer
      phase := .outboundAdvanceAwaitingAck offer advance }
    return advance.bytes
  | _ => throw (failure .invalidState "there is no prepared outbound ADVANCE")

/-- `acceptAuthenticatedAdvanceAcknowledgement` (pqHealing.ts:1751-1769). -/
def acceptAuthenticatedAdvanceAcknowledgement (acknowledgement : PqHealingAdvanceAcknowledgement) :
    MachineM Unit := do
  let ack ← attempt (requireAcknowledgement acknowledgement)
  let m ← get
  match m.phase with
  | .outboundAdvanceAwaitingAck _ advance =>
    ensure (ack.epoch = m.epoch ∧ ack.advanceCounter = advance.senderCounter)
      (failure .invalidRecord "advance acknowledgement does not bind the pending transition")
    set { m with phase := .idle }
  | _ => throw (failure .invalidState "no outbound ADVANCE is awaiting acknowledgement")

/-- `acceptAuthenticatedAdvance` (pqHealing.ts:1775-1821). -/
def acceptAuthenticatedAdvance (record : Bytes) : MachineM Unit := do
  let m ← get
  let advance ← attempt (decodeAdvance record m.suite (some m.binding))
  attempt (m.rejectKnownAdvanceReplayOrFork advance)
  match m.phase with
  | .outboundOffer true offer keyPair =>
    attempt (m.requireExpectedCounter advance.senderCounter)
    attempt (m.requireExpectedEpoch advance.fromEpoch)
    ensure (advance.offer.bytes = offer.bytes)
      (failure .fork "ADVANCE answers a different OFFER")
    let sharedSecret ← attempt (decapsulate L m.suite advance.ciphertext keyPair.secretKey)
    attempt (requireBytes sharedSecret "ML-KEM shared secret"
      MlKemParameterSet.sharedSecretBytes)
    let nextRoot ← attempt (deriveNextRoot L m.rootKey sharedSecret advance.bytes)
    set { m with phase := .inboundAdvancePrepared offer advance keyPair nextRoot }
  | _ => throw (failure .invalidState
      "a dispatched outbound OFFER is required before ADVANCE")

/-- `commitAcceptedAdvance` (pqHealing.ts:1828-1850). -/
def commitAcceptedAdvance : MachineM PqHealingAdvanceAcknowledgement := do
  let m ← get
  match m.phase with
  | .inboundAdvancePrepared _ advance _ nextRoot =>
    attempt (requireBytes nextRoot "candidate PQ root" PQ_HEALING_ROOT_BYTES)
    set { m with
      rootKey := nextRoot
      epoch := advance.toEpoch
      localCounter := m.localCounter + 1
      remoteCounter := m.remoteCounter + 1
      nextOfferer := .remote
      lastInboundAdvance := some advance
      phase := .inboundAdvanceAwaitingAckDispatch advance }
    return { epoch := advance.toEpoch, advanceCounter := advance.senderCounter }
  | _ => throw (failure .invalidState "there is no accepted ADVANCE to commit")

/-- `markAdvanceAcknowledgementDispatched` (pqHealing.ts:1857-1875). -/
def markAdvanceAcknowledgementDispatched (acknowledgement : PqHealingAdvanceAcknowledgement) :
    MachineM Unit := do
  let ack ← attempt (requireAcknowledgement acknowledgement)
  let m ← get
  match m.phase with
  | .inboundAdvanceAwaitingAckDispatch advance =>
    ensure (ack.epoch = m.epoch ∧ ack.advanceCounter = advance.senderCounter)
      (failure .invalidRecord "advance acknowledgement does not bind the committed transition")
    set { m with phase := .idle }
  | _ => throw (failure .invalidState "no advance acknowledgement is pending dispatch")

/-! ## Snapshots -/

/-- `PqHealingSnapshotPhase` (pqHealing.ts:158-187). -/
inductive PqHealingSnapshotPhase
  | idle
  | outboundOfferPrepared (offer secretKey : Bytes)
  | outboundOfferDispatched (offer secretKey : Bytes)
  | inboundOffer (offer : Bytes)
  | outboundAdvancePrepared (advance nextRoot : Bytes)
  | outboundAdvanceAwaitingAck (advance : Bytes)
  | inboundAdvancePrepared (advance secretKey nextRoot : Bytes)
  | inboundAdvanceAwaitingAckDispatch (advance : Bytes)
deriving DecidableEq

/-- `PqHealingSnapshot` (pqHealing.ts:198-209). -/
structure PqHealingSnapshot where
  parameterSet : MlKemParameterSet
  binding : Bytes
  rootKey : Bytes
  epoch : Nat
  localCounter : Nat
  remoteCounter : Nat
  nextOfferer : PqHealingTurn
  phase : PqHealingSnapshotPhase
  lastInboundOffer : Option Bytes
  lastInboundAdvance : Option Bytes
deriving DecidableEq

/-- `snapshotPhase` (pqHealing.ts:893-938). -/
def snapshotPhase : InternalPhase → PqHealingSnapshotPhase
  | .idle => .idle
  | .outboundOffer true offer keyPair => .outboundOfferDispatched offer.bytes keyPair.secretKey
  | .outboundOffer false offer keyPair => .outboundOfferPrepared offer.bytes keyPair.secretKey
  | .inboundOffer offer => .inboundOffer offer.bytes
  | .outboundAdvancePrepared _ advance nextRoot => .outboundAdvancePrepared advance.bytes nextRoot
  | .outboundAdvanceAwaitingAck _ advance => .outboundAdvanceAwaitingAck advance.bytes
  | .inboundAdvancePrepared _ advance keyPair nextRoot =>
    .inboundAdvancePrepared advance.bytes keyPair.secretKey nextRoot
  | .inboundAdvanceAwaitingAckDispatch advance => .inboundAdvanceAwaitingAckDispatch advance.bytes

/-- `snapshot` (pqHealing.ts:1468-1492). -/
def Machine.snapshot (m : Machine) : PqHealingSnapshot where
  parameterSet := m.suite
  binding := m.binding
  rootKey := m.rootKey
  epoch := m.epoch
  localCounter := m.localCounter
  remoteCounter := m.remoteCounter
  nextOfferer := m.nextOfferer
  phase := snapshotPhase m.phase
  lastInboundOffer := m.lastInboundOffer.map (·.bytes)
  lastInboundAdvance := m.lastInboundAdvance.map (·.bytes)

/-- A stored OFFER: its length, then the record (pqHealing.ts:997-1001). -/
def restoreOffer (record : Bytes) (name : String) (suite : MlKemParameterSet) (binding : Bytes) :
    Except JsError DecodedOffer := do
  requireBytes record name (offerLength suite)
  decodeOffer record suite (some binding)

/-- A stored ADVANCE: its length, then the record (pqHealing.ts:1037-1045). -/
def restoreAdvance (record : Bytes) (name : String) (suite : MlKemParameterSet) (binding : Bytes) :
    Except JsError DecodedAdvance := do
  requireBytes record name (advanceLength suite)
  decodeAdvance record suite (some binding)

/-- `decodeSnapshotPhase` (pqHealing.ts:979-1145). -/
def decodeSnapshotPhase (phase : PqHealingSnapshotPhase) (suite : MlKemParameterSet)
    (binding : Bytes) : Except JsError InternalPhase := do
  let outboundOffer (dispatched : Bool) (offerBytes secretKey : Bytes) := do
    let offer ← restoreOffer offerBytes "snapshot.phase.offer" suite binding
    requireBytes secretKey "snapshot.phase.secretKey" suite.secretKeyBytes
    return InternalPhase.outboundOffer dispatched offer { publicKey := offer.publicKey, secretKey }
  match phase with
  | .idle => return .idle
  | .outboundOfferPrepared offer secretKey => outboundOffer false offer secretKey
  | .outboundOfferDispatched offer secretKey => outboundOffer true offer secretKey
  | .inboundOffer offer =>
    return .inboundOffer (← restoreOffer offer "snapshot.phase.offer" suite binding)
  | .outboundAdvancePrepared advanceBytes nextRoot =>
    let advance ← restoreAdvance advanceBytes "snapshot.phase.advance" suite binding
    requireBytes nextRoot "snapshot.phase.nextRoot" PQ_HEALING_ROOT_BYTES
    return .outboundAdvancePrepared advance.offer advance nextRoot
  | .outboundAdvanceAwaitingAck advanceBytes =>
    let advance ← restoreAdvance advanceBytes "snapshot.phase.advance" suite binding
    return .outboundAdvanceAwaitingAck advance.offer advance
  | .inboundAdvancePrepared advanceBytes secretKey nextRoot =>
    let advance ← restoreAdvance advanceBytes "snapshot.phase.advance" suite binding
    requireBytes secretKey "snapshot.phase.secretKey" suite.secretKeyBytes
    requireBytes nextRoot "snapshot.phase.nextRoot" PQ_HEALING_ROOT_BYTES
    return .inboundAdvancePrepared advance.offer advance
      { publicKey := advance.offer.publicKey, secretKey } nextRoot
  | .inboundAdvanceAwaitingAckDispatch advanceBytes =>
    return .inboundAdvanceAwaitingAckDispatch
      (← restoreAdvance advanceBytes "snapshot.phase.advance" suite binding)

/-- `snapshotInvariant` (pqHealing.ts:1147-1149). -/
def snapshotInvariant (condition : Prop) [Decidable condition] (message : String) :
    Except JsError Unit :=
  demand condition (failure .invalidRecord ("snapshot " ++ message))

/-- The phase part of `validateSnapshotState` (pqHealing.ts:1183-1248). -/
def validateSnapshotPhase (m : Machine) : Except JsError Unit :=
  match m.phase with
  | .idle => .ok ()
  | .outboundOffer _ offer _ =>
    snapshotInvariant
      (m.nextOfferer = .local ∧ offer.senderCounter = m.localCounter ∧ offer.fromEpoch = m.epoch)
      "outbound OFFER does not match the current turn/counter/epoch"
  | .inboundOffer offer =>
    snapshotInvariant
      (m.nextOfferer = .remote ∧ offer.senderCounter = m.remoteCounter ∧ offer.fromEpoch = m.epoch)
      "inbound OFFER does not match the current turn/counter/epoch"
  | .outboundAdvancePrepared offer advance _ =>
    snapshotInvariant
      (m.nextOfferer = .remote ∧ advance.senderCounter = m.localCounter ∧
        offer.senderCounter = m.remoteCounter ∧ advance.fromEpoch = m.epoch)
      "prepared outbound ADVANCE does not match current state"
  | .outboundAdvanceAwaitingAck offer advance => do
    snapshotInvariant
      (m.nextOfferer = .local ∧ advance.senderCounter + 1 = m.localCounter ∧
        offer.senderCounter + 1 = m.remoteCounter ∧ advance.toEpoch = m.epoch)
      "outbound ADVANCE awaiting ACK does not match committed state"
    snapshotInvariant (m.lastInboundOffer.map (·.bytes) = some offer.bytes)
      "outbound ADVANCE is missing its exact inbound OFFER replay record"
  | .inboundAdvancePrepared offer advance _ _ =>
    snapshotInvariant
      (m.nextOfferer = .local ∧ advance.senderCounter = m.remoteCounter ∧
        offer.senderCounter = m.localCounter ∧ advance.fromEpoch = m.epoch)
      "prepared inbound ADVANCE does not match current state"
  | .inboundAdvanceAwaitingAckDispatch advance => do
    snapshotInvariant
      (m.nextOfferer = .remote ∧ advance.senderCounter + 1 = m.remoteCounter ∧
        advance.offer.senderCounter + 1 = m.localCounter ∧ advance.toEpoch = m.epoch)
      "inbound ADVANCE awaiting ACK dispatch does not match committed state"
    snapshotInvariant (m.lastInboundAdvance.map (·.bytes) = some advance.bytes)
      "pending ACK is missing its exact inbound ADVANCE replay record"

/-- `validateSnapshotState` (pqHealing.ts:1151-1248). -/
def validateSnapshotState (m : Machine) : Except JsError Unit := do
  snapshotInvariant (∀ offer ∈ m.lastInboundOffer, offer.toEpoch ≤ m.epoch)
    "last inbound OFFER is from a future epoch"
  snapshotInvariant (∀ offer ∈ m.lastInboundOffer, offer.senderCounter < m.remoteCounter)
    "last inbound OFFER counter was not consumed"
  snapshotInvariant (∀ advance ∈ m.lastInboundAdvance, advance.toEpoch ≤ m.epoch)
    "last inbound ADVANCE is from a future epoch"
  snapshotInvariant (∀ advance ∈ m.lastInboundAdvance, advance.senderCounter < m.remoteCounter)
    "last inbound ADVANCE counter was not consumed"
  validateSnapshotPhase m

/-- `decodePqHealingSnapshot` and `PqHealingMachine.restore` (pqHealing.ts:1250-1341,
1392-1423). The constructor called at the end repeats checks already made. -/
def restore (snapshot : PqHealingSnapshot) (suite : MlKemParameterSet) (binding : Bytes) :
    Except JsError Machine := do
  requireBytes binding "binding" PQ_HEALING_BINDING_BYTES
  demand (snapshot.parameterSet = suite)
    (failure .suiteMismatch "snapshot suite differs from the authenticated room suite")
  requireBytes snapshot.binding "snapshot.binding" PQ_HEALING_BINDING_BYTES
  demand (snapshot.binding = binding)
    (failure .bindingMismatch "snapshot belongs to a different authenticated edge")
  requireBytes snapshot.rootKey "snapshot.rootKey" PQ_HEALING_ROOT_BYTES
  requireU64 snapshot.epoch "snapshot.epoch"
  requireU64 snapshot.localCounter "snapshot.localCounter"
  requireU64 snapshot.remoteCounter "snapshot.remoteCounter"
  let phase ← decodeSnapshotPhase snapshot.phase suite binding
  let lastInboundOffer ← snapshot.lastInboundOffer.mapM
    (restoreOffer · "snapshot.lastInboundOffer" suite binding)
  let lastInboundAdvance ← snapshot.lastInboundAdvance.mapM
    (restoreAdvance · "snapshot.lastInboundAdvance" suite binding)
  let m : Machine :=
    { suite, binding
      rootKey := snapshot.rootKey
      epoch := snapshot.epoch
      localCounter := snapshot.localCounter
      remoteCounter := snapshot.remoteCounter
      nextOfferer := snapshot.nextOfferer
      phase, lastInboundOffer, lastInboundAdvance }
  validateSnapshotState m
  return m

/-- `clone` (pqHealing.ts:1495-1507). -/
def Machine.clone (m : Machine) : Except JsError Machine := restore m.snapshot m.suite m.binding

/-! ## Well-formed machines -/

/-- An OFFER of this edge. -/
def Machine.OfferOk (m : Machine) (offer : DecodedOffer) : Prop :=
  decodeOffer offer.bytes m.suite (some m.binding) = .ok offer

/-- An ADVANCE of this edge. -/
def Machine.AdvanceOk (m : Machine) (advance : DecodedAdvance) : Prop :=
  decodeAdvance advance.bytes m.suite (some m.binding) = .ok advance

/-- The records of a phase belong to this edge and match the machine's turn,
counters and epoch. -/
def Machine.PhaseOk (m : Machine) : InternalPhase → Prop
  | .idle => True
  | .outboundOffer _ offer keyPair =>
    m.OfferOk offer ∧ keyPair.publicKey = offer.publicKey ∧
      keyPair.secretKey.length = m.suite.secretKeyBytes ∧
      (m.localCounter < MAX_U64 ∧ m.remoteCounter < MAX_U64) ∧ m.nextOfferer = .local ∧
      offer.senderCounter = m.localCounter ∧ offer.fromEpoch = m.epoch
  | .inboundOffer offer =>
    m.OfferOk offer ∧ m.nextOfferer = .remote ∧ offer.senderCounter = m.remoteCounter ∧
      offer.fromEpoch = m.epoch
  | .outboundAdvancePrepared offer advance nextRoot =>
    m.AdvanceOk advance ∧ offer = advance.offer ∧ nextRoot.length = PQ_HEALING_ROOT_BYTES ∧
      m.nextOfferer = .remote ∧ advance.senderCounter = m.localCounter ∧
      offer.senderCounter = m.remoteCounter ∧ advance.fromEpoch = m.epoch
  | .outboundAdvanceAwaitingAck offer advance =>
    m.AdvanceOk advance ∧ offer = advance.offer ∧ m.lastInboundOffer = some offer ∧
      m.nextOfferer = .local ∧ advance.senderCounter + 1 = m.localCounter ∧
      offer.senderCounter + 1 = m.remoteCounter ∧ advance.toEpoch = m.epoch
  | .inboundAdvancePrepared offer advance keyPair nextRoot =>
    m.AdvanceOk advance ∧ offer = advance.offer ∧ keyPair.publicKey = offer.publicKey ∧
      keyPair.secretKey.length = m.suite.secretKeyBytes ∧
      nextRoot.length = PQ_HEALING_ROOT_BYTES ∧ m.nextOfferer = .local ∧
      advance.senderCounter = m.remoteCounter ∧ offer.senderCounter = m.localCounter ∧
      advance.fromEpoch = m.epoch
  | .inboundAdvanceAwaitingAckDispatch advance =>
    m.AdvanceOk advance ∧ m.lastInboundAdvance = some advance ∧ m.nextOfferer = .remote ∧
      advance.senderCounter + 1 = m.remoteCounter ∧
      advance.offer.senderCounter + 1 = m.localCounter ∧ advance.toEpoch = m.epoch

/-- What every machine reached by the methods satisfies. -/
structure Machine.WellFormed (m : Machine) : Prop where
  binding : m.binding.length = PQ_HEALING_BINDING_BYTES
  root : m.rootKey.length = PQ_HEALING_ROOT_BYTES
  epoch : m.epoch ≤ MAX_U64
  localCounter : m.localCounter ≤ MAX_U64
  remoteCounter : m.remoteCounter ≤ MAX_U64
  lastOffer : ∀ offer ∈ m.lastInboundOffer,
    m.OfferOk offer ∧ offer.toEpoch ≤ m.epoch ∧ offer.senderCounter < m.remoteCounter
  lastAdvance : ∀ advance ∈ m.lastInboundAdvance,
    m.AdvanceOk advance ∧ advance.toEpoch ≤ m.epoch ∧ advance.senderCounter < m.remoteCounter
  phase : m.PhaseOk m.phase

theorem restoreOffer_of_ok {m : Machine} {offer : DecodedOffer} (h : m.OfferOk offer)
    (name : String) : restoreOffer offer.bytes name m.suite m.binding = .ok offer := by
  have hlen := (decodeOffer_spec h).length_eq
  simp only [restoreOffer, requireBytes, demand_bind, if_pos hlen]
  exact h

theorem restoreAdvance_of_ok {m : Machine} {advance : DecodedAdvance} (h : m.AdvanceOk advance)
    (name : String) : restoreAdvance advance.bytes name m.suite m.binding = .ok advance := by
  have hlen := (decodeAdvance_spec h).length_eq
  simp only [restoreAdvance, requireBytes, demand_bind, if_pos hlen]
  exact h

/-- The stored form of a good phase decodes to that phase. -/
theorem decodeSnapshotPhase_snapshotPhase {m : Machine} {phase : InternalPhase}
    (h : m.PhaseOk phase) :
    decodeSnapshotPhase (snapshotPhase phase) m.suite m.binding = .ok phase := by
  cases phase with
  | idle => rfl
  | outboundOffer dispatched offer keyPair =>
    obtain ⟨hoffer, hpk, hsk, -⟩ := h
    have hpair : (⟨offer.publicKey, keyPair.secretKey⟩ : MlKemKeyPair) = keyPair := by
      rw [← hpk]
    cases dispatched <;>
      simp [decodeSnapshotPhase, snapshotPhase, restoreOffer_of_ok hoffer, requireBytes, demand,
        hsk, hpair]
  | inboundOffer offer =>
    simp [decodeSnapshotPhase, snapshotPhase, restoreOffer_of_ok h.1]
  | outboundAdvancePrepared offer advance nextRoot =>
    obtain ⟨hadvance, rfl, hroot, -⟩ := h
    simp [decodeSnapshotPhase, snapshotPhase, restoreAdvance_of_ok hadvance, requireBytes, demand,
      hroot]
  | outboundAdvanceAwaitingAck offer advance =>
    obtain ⟨hadvance, rfl, -⟩ := h
    simp [decodeSnapshotPhase, snapshotPhase, restoreAdvance_of_ok hadvance]
  | inboundAdvancePrepared offer advance keyPair nextRoot =>
    obtain ⟨hadvance, rfl, hpk, hsk, hroot, -⟩ := h
    have hpair : (⟨advance.offer.publicKey, keyPair.secretKey⟩ : MlKemKeyPair) = keyPair := by
      rw [← hpk]
    simp [decodeSnapshotPhase, snapshotPhase, restoreAdvance_of_ok hadvance, requireBytes, demand,
      hsk, hroot, hpair]
  | inboundAdvanceAwaitingAckDispatch advance =>
    simp [decodeSnapshotPhase, snapshotPhase, restoreAdvance_of_ok h.1]

theorem validateSnapshotPhase_of_ok {m : Machine} (h : m.PhaseOk m.phase) :
    validateSnapshotPhase m = .ok () := by
  unfold validateSnapshotPhase
  cases hphase : m.phase with
  | idle => rfl
  | outboundOffer dispatched offer keyPair =>
    rw [hphase] at h
    obtain ⟨-, -, -, -, h⟩ := h
    simp [snapshotInvariant, demand, h]
  | inboundOffer offer =>
    rw [hphase] at h
    obtain ⟨-, h⟩ := h
    simp [snapshotInvariant, demand, h]
  | outboundAdvancePrepared offer advance nextRoot =>
    rw [hphase] at h
    obtain ⟨-, -, -, h⟩ := h
    simp [snapshotInvariant, demand, h]
  | outboundAdvanceAwaitingAck offer advance =>
    rw [hphase] at h
    obtain ⟨-, -, hlast, h⟩ := h
    simp [snapshotInvariant, demand, h, hlast]
  | inboundAdvancePrepared offer advance keyPair nextRoot =>
    rw [hphase] at h
    obtain ⟨-, -, -, -, -, h⟩ := h
    simp [snapshotInvariant, demand, h]
  | inboundAdvanceAwaitingAckDispatch advance =>
    rw [hphase] at h
    obtain ⟨-, hlast, h⟩ := h
    simp [snapshotInvariant, demand, h, hlast]

theorem validateSnapshotState_of_wellFormed {m : Machine} (h : m.WellFormed) :
    validateSnapshotState m = .ok () := by
  have h1 : ∀ offer ∈ m.lastInboundOffer, offer.toEpoch ≤ m.epoch :=
    fun o ho => (h.lastOffer o ho).2.1
  have h2 : ∀ offer ∈ m.lastInboundOffer, offer.senderCounter < m.remoteCounter :=
    fun o ho => (h.lastOffer o ho).2.2
  have h3 : ∀ advance ∈ m.lastInboundAdvance, advance.toEpoch ≤ m.epoch :=
    fun a ha => (h.lastAdvance a ha).2.1
  have h4 : ∀ advance ∈ m.lastInboundAdvance, advance.senderCounter < m.remoteCounter :=
    fun a ha => (h.lastAdvance a ha).2.2
  simp only [validateSnapshotState, snapshotInvariant, demand_bind, if_pos h1, if_pos h2,
    if_pos h3, if_pos h4]
  exact validateSnapshotPhase_of_ok h.phase

/-- Restoring the snapshot of a well-formed machine gives the machine back. -/
theorem restore_snapshot {m : Machine} (h : m.WellFormed) :
    restore m.snapshot m.suite m.binding = .ok m := by
  have hoffer : (m.lastInboundOffer.map (·.bytes)).mapM
      (restoreOffer · "snapshot.lastInboundOffer" m.suite m.binding) = .ok m.lastInboundOffer := by
    cases hlast : m.lastInboundOffer with
    | none => rfl
    | some offer =>
      have := restoreOffer_of_ok (h.lastOffer offer hlast).1 "snapshot.lastInboundOffer"
      simp [this]
  have hadvance : (m.lastInboundAdvance.map (·.bytes)).mapM
      (restoreAdvance · "snapshot.lastInboundAdvance" m.suite m.binding) =
      .ok m.lastInboundAdvance := by
    cases hlast : m.lastInboundAdvance with
    | none => rfl
    | some advance =>
      have := restoreAdvance_of_ok (h.lastAdvance advance hlast).1 "snapshot.lastInboundAdvance"
      simp [this]
  have hu64 : ∀ {n : Nat} (name : String), n ≤ MAX_U64 → requireU64 n name = .ok () :=
    fun _ hn => demand_of hn
  have hlen : ∀ {v : Bytes} (name : String) (n : Nat), v.length = n → requireBytes v name n = .ok () :=
    fun _ _ hn => demand_of hn
  unfold restore Machine.snapshot
  simp only [hlen _ _ h.binding, hlen _ _ h.root, hu64 _ h.epoch, hu64 _ h.localCounter,
    hu64 _ h.remoteCounter, demand_of, decodeSnapshotPhase_snapshotPhase h.phase, hoffer, hadvance,
    ok_bind, validateSnapshotState_of_wellFormed h]
  rfl

/-- A clone of a well-formed machine is the machine. -/
theorem clone_eq {m : Machine} (h : m.WellFormed) : m.clone = .ok m := restore_snapshot h

end PqHealing

end P2Party
