import P2Party.Base.Process
import P2Party.Cryptography.Ratchet
import P2Party.Messages.Merkle
import P2Party.PqHealing.Runtime

/-!
# The handshake (`handlers/handshakeCore.ts`)

Two peers exchange HELLO flights, derive one root from interactive triple DH, ML-KEM and,
in PIN rooms, CPace, and confirm it with three chained MACs. `performHandshakeCore` is a
process that sends and receives the flights; what it draws at random is an argument.

- `deriveGenerator`, `cpaceStart`, `cpaceFinish` (cpace.ts);
- `deriveInteractive3dhSecret` (x3dh.ts);
- `packHello`, `parseHello`, `packConfirm`, `packFinish`: the flights;
- `deriveSession`: what both sides derive from the HELLO flights;
- `buildConfirmationInput`, `confirmResponder`, `confirmInitiator`: the confirmation;
- `performHandshakeCore`: the whole.
-/

namespace P2Party

open Base PqHealing PqHealingRuntime

/-- The further primitives a handshake calls, with the buffer sizes they read back. -/
structure HandshakeCrypto extends LibCrypto where
  /-- SHA-256. -/
  sha256 : Bytes → Bytes
  /-- The Ristretto255 point of a 64-byte hash. -/
  ristretto255FromHash : Bytes → Bytes
  /-- Ristretto255 scalar multiplication; nothing for an invalid point or the identity. -/
  ristretto255Scalarmult : Bytes → Bytes → Option Bytes
  /-- Ed25519 verification of a message, a signature and a public key. -/
  ed25519Verify : Bytes → Bytes → Bytes → Bool
  length_sha256 : ∀ bs, (sha256 bs).length = 32
  length_ristretto255FromHash : ∀ hash, (ristretto255FromHash hash).length = 32
  length_ristretto255Scalarmult : ∀ scalar point share,
    ristretto255Scalarmult scalar point = some share → share.length = 32

namespace Handshake

/-! ## CPace (cpace.ts) -/

/-- `CPACE_RISTRETTO255_DSI` (constants.ts:124). -/
def CPACE_DSI_BYTES : Bytes := textEncode "CPaceRistretto255"

/-- `CPACE_RISTRETTO255_ISK_DSI` (constants.ts:125). -/
def CPACE_ISK_DSI_BYTES : Bytes := textEncode "CPaceRistretto255_ISK"

/-- `SHA512_INPUT_BLOCK_BYTES` (cpace.ts:19). -/
abbrev SHA512_INPUT_BLOCK_BYTES : Nat := 128

/-- The loop of `encodeCpaceLength` (cpace.ts:42-49). -/
def cpaceLengthLoop : Nat → Nat → Bytes
  | 0, _ => []
  | fuel + 1, remaining =>
    if remaining / 128 = 0 then [UInt8.ofNat (remaining % 128)]
    else UInt8.ofNat (remaining % 128 + 128) :: cpaceLengthLoop fuel (remaining / 128)

/-- `encodeCpaceLength` (cpace.ts:38-51). -/
def encodeCpaceLength (length : Nat) : Bytes := cpaceLengthLoop (length + 1) length

/-- A field with its length before it (cpace.ts:73-80). -/
def lvField (data : Bytes) : Bytes := encodeCpaceLength data.length ++ data

variable (L : HandshakeCrypto)

/-- `sha512LvConcat` (cpace.ts:87-118). -/
def sha512LvConcat (parts : List Bytes) : Bytes := L.sha512 (parts.flatMap lvField)

/-- `deriveGenerator` (cpace.ts:128-174). -/
def deriveGenerator (pin sid channelInput : Bytes) : Bytes :=
  let lenZpad := SHA512_INPUT_BLOCK_BYTES - 1 - (lvField CPACE_DSI_BYTES).length - (lvField pin).length
  L.ristretto255FromHash (sha512LvConcat L
    [CPACE_DSI_BYTES, pin, List.replicate lenZpad 0, channelInput, sid])

/-- `cpaceStart` (cpace.ts:177-220), with its random scalar: the public share. -/
def cpaceStart (generator scalar : Bytes) : Except JsError Bytes := do
  demand (generator.length = 32) (.error "cpace: generator must be 32 bytes")
  match L.ristretto255Scalarmult scalar generator with
  | some share => return share
  | none => .error (.error "cpace: public share is the identity")

/-- `cpaceFinish` (cpace.ts:242-349), without associated data: the ISK. -/
def cpaceFinish (y peerShare sid initiatorShare responderShare : Bytes) : Except JsError Bytes := do
  demand (y.length = 32) (.error "cpace: private scalar must be 32 bytes")
  demand (peerShare.length = 32) (.error "cpace: peer share must be 32 bytes")
  demand (initiatorShare.length = 32) (.error "cpace: initiator share must be 32 bytes")
  demand (responderShare.length = 32) (.error "cpace: responder share must be 32 bytes")
  match L.ristretto255Scalarmult y peerShare with
  | none => .error (.error "cpace: peer share is invalid or the identity")
  | some k =>
    return sha512LvConcat L [CPACE_ISK_DSI_BYTES, sid, k, initiatorShare, [], responderShare, []]

/-! ## Interactive triple DH (x3dh.ts) -/

/-- `THREE_DH_INFO` (x3dh.ts:8). -/
def THREE_DH_INFO : Bytes := textEncode "p2party-interactive-3dh-v2"

/-- `THREE_DH_SALT` (x3dh.ts:9). -/
def THREE_DH_SALT : Bytes := List.replicate 64 0

/-- `deriveInteractive3dhSecret` (x3dh.ts:18-53). -/
def deriveInteractive3dhSecret (idSelfSec idPeerPub ephSelfSec ephPeerPub : Bytes)
    (amInitiator : Bool) : Except JsError Bytes := do
  let dh3 ← L.x25519Dh ephSelfSec ephPeerPub
  let (dh1, dh2) ← if amInitiator then do
      let dh1 ← L.x25519Dh idSelfSec ephPeerPub
      let dh2 ← L.x25519Dh ephSelfSec idPeerPub
      pure (dh1, dh2)
    else do
      let dh1 ← L.x25519Dh ephSelfSec idPeerPub
      let dh2 ← L.x25519Dh idSelfSec ephPeerPub
      pure (dh1, dh2)
  return L.hkdfExpand (L.hkdfExtract THREE_DH_SALT (dh1 ++ dh2 ++ dh3)) THREE_DH_INFO 32

/-! ## Parameters and constants -/

/-- The authentication mode of a room. -/
inductive AuthMode
  | pin
  | nopin
deriving DecidableEq, Repr

/-- `HandshakeCoreParams` (handshakeCore.ts:212-223). -/
structure HandshakeCoreParams where
  mode : AuthMode
  pqMode : RoomPqMode := .hybridMlkem768
  pin : Option Bytes
  channelInput : Bytes
  amInitiator : Bool
  idSelfSec : Bytes
  selfIdentityX25519Pub : Bytes
  selfIdentityCrossSignature : Bytes
  peerIdentityEd25519Pub : Bytes

/-- What one side draws at random: its session id, the secret of its ephemeral key, the
coins of ML-KEM, its CPace scalar, and the secrets of its two ratchet key pairs. -/
structure HandshakeCoins where
  sid : RandomBytes 32
  ek : Bytes
  kem : Bytes
  scalar : RandomBytes 32
  dh : Bytes
  prime : Bytes

/-- `HS_STEP_HELLO` (handshakeCore.ts:90). -/
abbrev HS_STEP_HELLO : UInt8 := 0x01

@[inherit_doc HS_STEP_HELLO] abbrev HS_STEP_CONFIRM : UInt8 := 0x02

@[inherit_doc HS_STEP_HELLO] abbrev HS_STEP_FINISH : UInt8 := 0x03

/-- `HS_KC_DOMAIN` (handshakeCore.ts:95). -/
def HS_KC_DOMAIN : Bytes := textEncode "p2party-v4-hs-kc-transcript-v4"

/-- `HS_KC_RESPONDER_DOMAIN` (handshakeCore.ts:101-103). -/
def HS_KC_RESPONDER_DOMAIN : Bytes := textEncode "p2party-v4-hs-kc-responder-v4"

/-- `HS_KC_INITIATOR_DOMAIN` (handshakeCore.ts:104-106). -/
def HS_KC_INITIATOR_DOMAIN : Bytes := textEncode "p2party-v4-hs-kc-initiator-ratchet-dh-v4"

/-- `HS_KC_RESPONDER_FINISH_DOMAIN` (handshakeCore.ts:107-109). -/
def HS_KC_RESPONDER_FINISH_DOMAIN : Bytes := textEncode "p2party-v4-hs-kc-responder-finish-v4"

/-- `hybridKdfDomain` (handshakeCore.ts:117-125). -/
def hybridKdfDomain (mode : AuthMode) (parameterSet : MlKemParameterSet) : Bytes :=
  textEncode (match mode with
    | .pin => "p2party-v4-hybrid-root-cpace21-3dh-ml-kem-" ++ toString parameterSet.toNat ++ "-v4"
    | .nopin => "p2party-v4-hybrid-root-3dh-ml-kem-" ++ toString parameterSet.toNat ++ "-v4")

/-- `HS_HYBRID_KDF_SALT` (handshakeCore.ts:126). -/
def HS_HYBRID_KDF_SALT : Bytes := List.replicate 64 0

/-- `PQ_HEALING_ROOT_SALT` (handshakeCore.ts:127-129). -/
def PQ_HEALING_ROOT_SALT : Bytes := textEncode "p2party-v4-pq-healing-extract-v1"

/-- `PQ_HEALING_ROOT_INFO` (handshakeCore.ts:130-132). -/
def PQ_HEALING_ROOT_INFO : Bytes := textEncode "p2party-v4-pq-healing-root-v1"

/-- `PQ_HEALING_BINDING_DOMAIN` (handshakeCore.ts:133-135). -/
def PQ_HEALING_BINDING_DOMAIN : Bytes := textEncode "p2party-v4-pq-healing-binding-v1" ++ [0]

/-- `IDENTITY_CROSS_SIGN_DOMAIN_BYTES` (constants.ts:117-119). -/
def IDENTITY_CROSS_SIGN_DOMAIN_BYTES : Bytes := textEncode "p2party-x25519-idsig-v1"

/-- `DH_LEN`, also the length of session ids, ephemeral keys, shares and identity keys
(handshakeCore.ts:149-158). -/
abbrev DH_LEN : Nat := 32

/-- `MAC_LEN`, also `IDENTITY_SIG_LEN` (handshakeCore.ts:153, 159). -/
abbrev MAC_LEN : Nat := 64

/-- `HELLO_ML_KEM_PUBLIC_KEY_OFF` (handshakeCore.ts:166). -/
abbrev HELLO_ML_KEM_PUBLIC_KEY_OFF : Nat := 193

/-- `CONFIRM_LEN` (handshakeCore.ts:167). -/
abbrev CONFIRM_LEN : Nat := 97

/-- `FINISH_LEN` (handshakeCore.ts:168). -/
abbrev FINISH_LEN : Nat := 65

/-- `helloLayout(pqMode).length` (handshakeCore.ts:177-186). -/
def helloLength (suite : MlKemParameterSet) : Nat :=
  HELLO_ML_KEM_PUBLIC_KEY_OFF + suite.publicKeyBytes + suite.ciphertextBytes

/-! ## Flights -/

/-- The fields of a HELLO (handshakeCore.ts:282-291). -/
structure Hello where
  sid : Bytes
  ek : Bytes
  y : Bytes
  x25519Pub : Bytes
  crossSig : Bytes
  mlKemPublicKey : Bytes
  mlKemCiphertext : Bytes
deriving DecidableEq

/-- `Uint8Array.prototype.set` at an offset. -/
def setAt (out field : Bytes) (offset : Nat) : Except JsError Bytes :=
  if offset + field.length ≤ out.length then
    .ok (out.take offset ++ field ++ out.drop (offset + field.length))
  else .error (.rangeError "offset is out of bounds")

/-- `packHello` (handshakeCore.ts:282-302). -/
def packHello (suite : MlKemParameterSet) (hello : Hello) : Except JsError Bytes := do
  let out := HS_STEP_HELLO :: List.replicate (helloLength suite - 1) 0
  let out ← setAt out hello.sid 1
  let out ← setAt out hello.ek 33
  let out ← setAt out hello.y 65
  let out ← setAt out hello.x25519Pub 97
  let out ← setAt out hello.crossSig 129
  let out ← setAt out hello.mlKemPublicKey HELLO_ML_KEM_PUBLIC_KEY_OFF
  setAt out hello.mlKemCiphertext (HELLO_ML_KEM_PUBLIC_KEY_OFF + suite.publicKeyBytes)

/-- The fields of a received HELLO (handshakeCore.ts:463-484). -/
def parseHello (suite : MlKemParameterSet) (bytes : Bytes) : Except JsError Hello := do
  demand (bytes.length = helloLength suite ∧ bytes.head? = some HS_STEP_HELLO)
    (.error "Malformed handshake HELLO")
  return {
    sid := slice bytes 1 DH_LEN
    ek := slice bytes 33 DH_LEN
    y := slice bytes 65 DH_LEN
    x25519Pub := slice bytes 97 DH_LEN
    crossSig := slice bytes 129 MAC_LEN
    mlKemPublicKey := slice bytes HELLO_ML_KEM_PUBLIC_KEY_OFF suite.publicKeyBytes
    mlKemCiphertext := slice bytes (HELLO_ML_KEM_PUBLIC_KEY_OFF + suite.publicKeyBytes)
      suite.ciphertextBytes }

/-- `allZero` (handshakeCore.ts:304-308). -/
def allZero (bytes : Bytes) : Bool := bytes.all (· == 0)

/-- The canonical fields of the peer's HELLO (handshakeCore.ts:486-507). -/
def checkCanonical (amInitiator : Bool) (peer : Hello) : Except JsError Unit :=
  if amInitiator then do
    demand (allZero peer.mlKemPublicKey = true)
      (.error "Malformed handshake HELLO: responder ML-KEM public-key field must be zero")
    demand (allZero peer.mlKemCiphertext = false)
      (.error "Malformed handshake HELLO: responder ML-KEM ciphertext is required")
  else do
    demand (allZero peer.mlKemPublicKey = false)
      (.error "Malformed handshake HELLO: initiator ML-KEM public key is required")
    demand (allZero peer.mlKemCiphertext = true)
      (.error "Malformed handshake HELLO: initiator ML-KEM ciphertext field must be zero")

/-- `verifyIdentityCrossSig` (identityCrossSig.ts:36-42). -/
def verifyIdentityCrossSig (x25519Pub crossSig ed25519Pub : Bytes) : Bool :=
  L.ed25519Verify (IDENTITY_CROSS_SIGN_DOMAIN_BYTES ++ x25519Pub) crossSig ed25519Pub

/-- The peer's HELLO up to the verification of its identity (handshakeCore.ts:460-521). -/
def takeHello (params : HandshakeCoreParams) (bytes : Bytes) : Except JsError Hello := do
  let peer ← parseHello (roomPqModeToParameterSet params.pqMode) bytes
  checkCanonical params.amInitiator peer
  demand (verifyIdentityCrossSig L peer.x25519Pub peer.crossSig params.peerIdentityEd25519Pub = true)
    (.error "Handshake peer X25519 identity cross-signature invalid")
  return peer

/-- `packConfirm` (handshakeCore.ts:310-316). -/
def packConfirm (dhPub mac : Bytes) : Bytes := HS_STEP_CONFIRM :: (dhPub ++ mac)

/-- `packFinish` (handshakeCore.ts:318-323). -/
def packFinish (mac : Bytes) : Bytes := HS_STEP_FINISH :: mac

/-- A received CONFIRM: the ratchet key and the MAC (handshakeCore.ts:740-747, 781-788). -/
def parseConfirm (bytes : Bytes) : Except JsError (Bytes × Bytes) := do
  demand (bytes.length = CONFIRM_LEN ∧ bytes.head? = some HS_STEP_CONFIRM)
    (.error "Malformed handshake CONFIRM")
  return (slice bytes 1 DH_LEN, slice bytes 33 MAC_LEN)

/-- A received FINISH: the MAC (handshakeCore.ts:810-816). -/
def parseFinish (bytes : Bytes) : Except JsError Bytes := do
  demand (bytes.length = FINISH_LEN ∧ bytes.head? = some HS_STEP_FINISH)
    (.error "Malformed handshake FINISH")
  return slice bytes 1 MAC_LEN

/-! ## HELLO -/

/-- `startCpace` (handshakeCore.ts:418-427) for a session id: the share, or no share without
a PIN. -/
def startCpace (params : HandshakeCoreParams) (coins : HandshakeCoins) (sidForG : Bytes) :
    Except JsError (Option Bytes) :=
  match params.mode with
  | .nopin => .ok none
  | .pin =>
    match params.pin with
    | none => .error (.error "PIN mode requires a PIN")
    | some pin => do
      let share ← cpaceStart L (deriveGenerator L pin sidForG params.channelInput) coins.scalar.val
      return some share

/-- `buildHello` (handshakeCore.ts:429-439): the local fields. -/
def buildHello (params : HandshakeCoreParams) (coins : HandshakeCoins) (share : Option Bytes)
    (mlKemPublicKey mlKemCiphertext : Bytes) : Hello where
  sid := coins.sid.val
  ek := L.x25519Base coins.ek
  y := share.getD (List.replicate 32 0)
  x25519Pub := params.selfIdentityX25519Pub
  crossSig := params.selfIdentityCrossSignature
  mlKemPublicKey := mlKemPublicKey
  mlKemCiphertext := mlKemCiphertext

/-- The initiator's HELLO, with the secret of its ML-KEM key (handshakeCore.ts:447-457). -/
def openHello (params : HandshakeCoreParams) (coins : HandshakeCoins) :
    Except JsError (Hello × Bytes) := do
  let suite := roomPqModeToParameterSet params.pqMode
  let keyPair ← generateKeyPair L.toLibCrypto suite coins.kem
  let share ← startCpace L params coins coins.sid.val
  return (buildHello L params coins share keyPair.publicKey (List.replicate suite.ciphertextBytes 0),
    keyPair.secretKey)

/-- The responder's HELLO, with the shared secret it encapsulated
(handshakeCore.ts:526-537). -/
def answerHello (params : HandshakeCoreParams) (coins : HandshakeCoins) (peer : Hello) :
    Except JsError (Hello × Bytes) := do
  let suite := roomPqModeToParameterSet params.pqMode
  let (ciphertext, shared) ← encapsulate L.toLibCrypto suite peer.mlKemPublicKey coins.kem
  let share ← startCpace L params coins peer.sid
  return (buildHello L params coins share (List.replicate suite.publicKeyBytes 0) ciphertext, shared)

/-! ## The session -/

/-- The ordered HELLO fields with the channel input: what the confirmations cover. -/
structure Transcript where
  initiator : Hello
  responder : Hello
  channelInput : Bytes
deriving DecidableEq

/-- The ordered fields (handshakeCore.ts:565-598): every field of the initiator and of the
responder is the local one or the peer's, by role. -/
def orderedFields (amInitiator : Bool) (own peer : Hello) (channelInput : Bytes) : Transcript where
  initiator :=
    { sid := if amInitiator then own.sid else peer.sid
      ek := if amInitiator then own.ek else peer.ek
      y := if amInitiator then own.y else peer.y
      x25519Pub := if amInitiator then own.x25519Pub else peer.x25519Pub
      crossSig := if amInitiator then own.crossSig else peer.crossSig
      mlKemPublicKey := if amInitiator then own.mlKemPublicKey else peer.mlKemPublicKey
      mlKemCiphertext := if amInitiator then own.mlKemCiphertext else peer.mlKemCiphertext }
  responder :=
    { sid := if amInitiator then peer.sid else own.sid
      ek := if amInitiator then peer.ek else own.ek
      y := if amInitiator then peer.y else own.y
      x25519Pub := if amInitiator then peer.x25519Pub else own.x25519Pub
      crossSig := if amInitiator then peer.crossSig else own.crossSig
      mlKemPublicKey := if amInitiator then peer.mlKemPublicKey else own.mlKemPublicKey
      mlKemCiphertext := if amInitiator then peer.mlKemCiphertext else own.mlKemCiphertext }
  channelInput := channelInput

/-- `hybridInfo` (handshakeCore.ts:633-642). -/
def hybridInfo (domain : Bytes) (t : Transcript) : Bytes :=
  domain ++ t.channelInput ++ t.initiator.x25519Pub ++ t.initiator.crossSig ++
    t.responder.x25519Pub ++ t.responder.crossSig ++ t.initiator.mlKemPublicKey ++
    t.responder.mlKemCiphertext

/-- `pqBindingInput` (handshakeCore.ts:650-663). -/
def pqBindingInput (t : Transcript) : Bytes :=
  PQ_HEALING_BINDING_DOMAIN ++ t.channelInput ++ t.initiator.sid ++ t.responder.sid ++
    t.initiator.ek ++ t.responder.ek ++ t.initiator.x25519Pub ++ t.initiator.crossSig ++
    t.responder.x25519Pub ++ t.responder.crossSig ++ t.initiator.mlKemPublicKey ++
    t.responder.mlKemCiphertext

/-- What both sides derive: the transcript, the root and the bootstrap of PQ healing. -/
structure Session where
  transcript : Transcript
  secret : Bytes
  pqHealingRoot : Bytes
  pqHealingBinding : Bytes
deriving DecidableEq

/-- The session of a transcript and the component secrets (handshakeCore.ts:619-685). -/
def combine (mode : AuthMode) (suite : MlKemParameterSet) (t : Transcript)
    (pakeSecret identitySecret sharedSecret : Bytes) : Session :=
  let hybridIkm := match mode with
    | .pin => pakeSecret ++ identitySecret ++ sharedSecret
    | .nopin => identitySecret ++ sharedSecret
  let hybridPrk := L.hkdfExtract HS_HYBRID_KDF_SALT hybridIkm
  let secret := L.hkdfExpand hybridPrk (hybridInfo (hybridKdfDomain mode suite) t) 32
  let binding := L.sha256 (pqBindingInput t)
  { transcript := t
    secret := secret
    pqHealingRoot := L.hkdfExpand (L.hkdfExtract PQ_HEALING_ROOT_SALT secret)
      (PQ_HEALING_ROOT_INFO ++ binding) 32
    pqHealingBinding := binding }

/-- The keys (handshakeCore.ts:551-692), from the two HELLO flights and the ML-KEM secret. -/
def deriveSession (params : HandshakeCoreParams) (coins : HandshakeCoins) (own peer : Hello)
    (sharedSecret : Bytes) : Except JsError Session := do
  let identitySecret ← deriveInteractive3dhSecret L params.idSelfSec peer.x25519Pub coins.ek peer.ek
    params.amInitiator
  let t := orderedFields params.amInitiator own peer params.channelInput
  let pakeSecret ← match params.mode with
    | .pin => cpaceFinish L coins.scalar.val peer.y t.initiator.sid t.initiator.y t.responder.y
    | .nopin => .ok []
  return combine L params.mode (roomPqModeToParameterSet params.pqMode) t pakeSecret identitySecret
    sharedSecret

/-! ## Confirmation -/

/-- `hmacSha512` (handshakeCore.ts:238-269): HKDF-Extract with the key as salt. -/
def hmacSha512 (key msg : Bytes) : Bytes := L.hkdfExtract key msg

/-- `buildConfirmationInput` (handshakeCore.ts:694-721). -/
def buildConfirmationInput (t : Transcript) (roleDomain dhPubR : Bytes) (dhPubI : Option Bytes)
    (priorProofs : List Bytes) : Bytes :=
  HS_KC_DOMAIN ++ roleDomain ++ t.initiator.sid ++ t.responder.sid ++ t.initiator.ek ++
    t.responder.ek ++ t.initiator.y ++ t.responder.y ++ t.initiator.x25519Pub ++
    t.initiator.crossSig ++ t.responder.x25519Pub ++ t.responder.crossSig ++
    t.initiator.mlKemPublicKey ++ t.initiator.mlKemCiphertext ++ t.responder.mlKemPublicKey ++
    t.responder.mlKemCiphertext ++ dhPubR ++ dhPubI.getD [] ++ priorProofs.flatten ++ t.channelInput

/-- The input of the responder's first proof. -/
def confirmationInputR (t : Transcript) (dhPubR : Bytes) : Bytes :=
  buildConfirmationInput t HS_KC_RESPONDER_DOMAIN dhPubR none []

/-- The input of the initiator's proof. -/
def confirmationInputI (t : Transcript) (dhPubR dhPubI macR : Bytes) : Bytes :=
  buildConfirmationInput t HS_KC_INITIATOR_DOMAIN dhPubR (some dhPubI) [macR]

/-- The input of the responder's last proof. -/
def finishInput (t : Transcript) (dhPubR dhPubI macR macI : Bytes) : Bytes :=
  buildConfirmationInput t HS_KC_RESPONDER_FINISH_DOMAIN dhPubR (some dhPubI) [macR, macI]

/-- What a handshake returns: the ratchet, the root and `PqHealingBootstrap`
(handshakeCore.ts:225-232, 842-853). -/
structure Established where
  state : RatchetState
  secret : Bytes
  rootKey : Bytes
  binding : Bytes
  nextOfferer : PqHealingTurn
deriving DecidableEq

/-- The result of a confirmed session. -/
def Session.established (s : Session) (state : RatchetState) (amInitiator : Bool) : Established where
  state := state
  secret := s.secret
  rootKey := s.pqHealingRoot
  binding := s.pqHealingBinding
  nextOfferer := if amInitiator then .local else .remote

/-- Prime the responder's ratchet with the confirmed key. -/
def primed (state : RatchetState) (dhPubI secretKey : Bytes) : Except JsError RatchetState :=
  match (primeResponderRatchet L.toLibCrypto dhPubI secretKey).run state with
  | .ok _ state => .ok state
  | .error e _ => .error e

/-- The responder's side of the confirmation (handshakeCore.ts:729-775). -/
def confirmResponder (params : HandshakeCoreParams) (coins : HandshakeCoins) (s : Session) :
    Proc Bytes JsError Established := do
  let state ← .ofExcept (initRatchet L.toLibCrypto s.secret false none
    (roomPqModeToRootSuite params.pqMode) coins.dh)
  let dhPubR := state.dhSelfPub
  let macR := hmacSha512 L s.secret (confirmationInputR s.transcript dhPubR)
  .tell (packConfirm dhPubR macR)
  let peerConfirm ← .hear
  let (dhPubI, macI) ← .ofExcept (parseConfirm peerConfirm)
  .require (macI = hmacSha512 L s.secret (confirmationInputI s.transcript dhPubR dhPubI macR))
    (.error "Handshake key-confirmation failed")
  let state ← .ofExcept (primed L state dhPubI coins.prime)
  .tell (packFinish (hmacSha512 L s.secret (finishInput s.transcript dhPubR dhPubI macR macI)))
  return s.established state false

/-- The initiator's side of the confirmation (handshakeCore.ts:776-834). It sends its proof
before it checks the responder's. -/
def confirmInitiator (params : HandshakeCoreParams) (coins : HandshakeCoins) (s : Session) :
    Proc Bytes JsError Established := do
  let peerConfirm ← .hear
  let (dhPubR, macR) ← .ofExcept (parseConfirm peerConfirm)
  let state ← .ofExcept (initRatchet L.toLibCrypto s.secret true (some dhPubR)
    (roomPqModeToRootSuite params.pqMode) coins.dh)
  let dhPubI := state.dhSelfPub
  let macI := hmacSha512 L s.secret (confirmationInputI s.transcript dhPubR dhPubI macR)
  .tell (packConfirm dhPubI macI)
  .require (macR = hmacSha512 L s.secret (confirmationInputR s.transcript dhPubR))
    (.error "Handshake key-confirmation failed")
  let peerFinish ← .hear
  let finish ← .ofExcept (parseFinish peerFinish)
  .require (finish = hmacSha512 L s.secret (finishInput s.transcript dhPubR dhPubI macR macI))
    (.error "Handshake final confirmation failed")
  return s.established state true

/-- `performHandshakeCore` (handshakeCore.ts:358-878). -/
def performHandshakeCore (params : HandshakeCoreParams) (coins : HandshakeCoins) :
    Proc Bytes JsError Established :=
  let suite := roomPqModeToParameterSet params.pqMode
  if params.amInitiator then do
    let (own, secretKey) ← .ofExcept (openHello L params coins)
    let hello ← .ofExcept (packHello suite own)
    .tell hello
    let peerHello ← .hear
    let peer ← .ofExcept (takeHello L params peerHello)
    let shared ← .ofExcept (decapsulate L.toLibCrypto suite peer.mlKemCiphertext secretKey)
    let session ← .ofExcept (deriveSession L params coins own peer shared)
    confirmInitiator L params coins session
  else do
    let peerHello ← .hear
    let peer ← .ofExcept (takeHello L params peerHello)
    let (own, shared) ← .ofExcept (answerHello L params coins peer)
    let hello ← .ofExcept (packHello suite own)
    .tell hello
    let session ← .ofExcept (deriveSession L params coins own peer shared)
    confirmResponder L params coins session

end Handshake

end P2Party
