import P2Party.Messages.MessageChunk
import P2Party.PqHealing.Accept

/-!
# The store-free session (`session.ts`)

A session owns one ratchet and one healing runtime. `encrypt` splits a plaintext
into chunks under a Merkle root and seals them all under one message key;
`decrypt` opens every frame on staged copies of the ratchet and of the active
receive keys and adopts them when the whole message is valid. The healing methods
pass through to the runtime. All methods run under one mutex, so a method is one
state transformation. Random bytes, key-pair secrets and clock readings are
arguments.

- `encrypt`, `decrypt`, `prepareHealing`, `acceptControlFrame`, `pendingControl`:
  the methods of the source;
- `openMessage`: the part of `decrypt` that works on staged copies;
- `decrypt_run`, `encrypt_run`: what a returning call does to the session.
-/

namespace P2Party

open Base PqHealing PqHealingRuntime

/-! ## State -/

/-- A reading of `Date.now()`: a time value after 1970. -/
abbrev Instant := { now : Nat // now ≤ MAX_TIME_VALUE }

/-- `Session` (session.ts:536-556). -/
structure Session where
  amInitiator : Bool
  state : RatchetState
  pq : SparsePqHealingState
  destroyed : Bool

namespace Session

/-- `PROTOCOL_VERSION` (constants.ts:51). -/
abbrev PROTOCOL_VERSION : Nat := 4

/-- `SESSION_METADATA_NAME` (session.ts:103). -/
def SESSION_METADATA_NAME : String := "p2party-session"

/-- Code that mutates one session. -/
abbrev SessionM := EStateM JsError Session

/-- `EncryptedSessionMessage` (session.ts:145-151). -/
structure EncryptedSessionMessage where
  protocolVersion : Nat
  root : Bytes
  frames : List Bytes
deriving DecidableEq

/-- `SessionControlOutput` (session.ts:163-166). -/
structure SessionControlOutput where
  frame : Option Bytes
  requiresPersistBeforeSend : Bool
deriving DecidableEq

/-- `NO_CONTROL` (session.ts:768-771). -/
def NO_CONTROL : SessionControlOutput := ⟨none, false⟩

/-- `canEncrypt` (session.ts:562-568). -/
def canEncrypt (s : Session) : Bool :=
  !s.destroyed && s.state.sendingChainKey.isSome && !s.pq.trafficBlocked

/-- `healingInProgress` (session.ts:575-577). -/
def healingInProgress (s : Session) : Bool := !s.destroyed && s.pq.trafficBlocked

/-- `requireBytes` with a length (session.ts:223-233). -/
def requireBytes (value : Bytes) (name : String) (length : Nat) : Except JsError Unit :=
  demand (value.length = length) (.rangeError (name ++ " must be " ++ toString length ++ " bytes"))

/-- `requireSafeUint` (session.ts:235-242). -/
def requireSafeUint (value : Nat) (name : String) : Except JsError Unit :=
  demand (value ≤ MAX_SAFE_INTEGER) (.rangeError (name ++ " must be a non-negative safe integer"))

/-- `#assertLive` (session.ts:579-581). -/
def assertLive : SessionM Unit := do
  ensure ((← get).destroyed = false) (.error "session: session is destroyed")

/-- Run a method of the healing runtime. -/
def onPq {α : Type} (m : RuntimeM α) : SessionM α :=
  zoom (·.pq) (fun pq s => { s with pq }) m

variable (L : LibCrypto)

/-! ## Splitting a message -/

/-- The random bytes one `encrypt` draws: chunk padding, proof padding, nonces. -/
structure EncryptRandomness where
  chunk : Nat → RandomBytes CHUNK_LEN
  proof : Nat → RandomBytes PROOF_LEN
  nonce : Nat → Nonce

/-- `Math.max(1, Math.ceil(totalSize / CHUNK_LEN))` (session.ts:397, 474). -/
def chunkCount (totalSize : Nat) : Nat := max 1 ((totalSize + (CHUNK_LEN - 1)) / CHUNK_LEN)

/-- How many bytes of the message chunk `index` carries (session.ts:403, 499-502). -/
def usefulLength (totalSize index : Nat) : Nat := min CHUNK_LEN (totalSize - index * CHUNK_LEN)

/-- A chunk: its part of the message in a buffer of random bytes (session.ts:402-409). -/
def paddedChunk (plaintext : Bytes) (index : Nat) (padding : RandomBytes CHUNK_LEN) : Bytes :=
  slice plaintext (index * CHUNK_LEN) (usefulLength plaintext.length index) ++
    padding.val.drop (usefulLength plaintext.length index)

/-- The metadata of a chunk (session.ts:434-444). -/
def sessionMetadata (contentHash : Bytes) (totalSize index : Nat) : Metadata where
  schemaVersion := 1
  messageType := MESSAGE_TYPE_UNKNOWN
  hash := contentHash
  totalSize := totalSize
  date := some 0
  name := SESSION_METADATA_NAME
  chunkStartIndex := 0
  chunkEndIndex := usefulLength totalSize index
  chunkIndex := index

/-- The plaintext of a cell: metadata, proof and chunk at their offsets
(session.ts:445-449). -/
def cellPlaintext (metadata proof chunk : Bytes) : Bytes :=
  metadata ++ (LibCrypto.pad PROOF_LEN proof ++ chunk)

/-- `PreparedMessage` (session.ts:376-380). -/
structure PreparedMessage where
  root : Bytes
  plaintexts : List Bytes

/-- `prepareMessage` (session.ts:392-459). -/
def prepareMessage (plaintext : Bytes) (ρ : EncryptRandomness) : Except JsError PreparedMessage := do
  let chunks := (List.range (chunkCount plaintext.length)).map fun index =>
    paddedChunk plaintext index (ρ.chunk index)
  let contentHash := L.sha512 plaintext
  let leaves := chunks.flatMap (hashMerkleLeaf L)
  let root ← getMerkleRoot L leaves
  let plaintexts ← chunks.zipIdx.mapM fun (chunk, index) => do
    let proof ← getMerkleProof L leaves (hashMerkleLeaf L chunk) (ρ.proof index)
    let metadata ← serializeMetadata (sessionMetadata contentHash plaintext.length index)
    return cellPlaintext metadata proof chunk
  return { root, plaintexts }

/-! ## Joining a message -/

/-- `DecryptedRecord` (session.ts:461-464). -/
structure DecryptedRecord where
  metadata : Metadata
  chunk : Bytes

/-- One iteration of the loop of `validateAndJoinRecords` (session.ts:479-509). -/
def validateRecord (first : Metadata) (expectedChunks : Nat)
    (byIndex : OrdMap Nat DecryptedRecord) (record : DecryptedRecord) :
    Except JsError (OrdMap Nat DecryptedRecord) := do
  let metadata := record.metadata
  requireSafeUint metadata.chunkIndex "metadata.chunkIndex"
  requireSafeUint metadata.chunkStartIndex "metadata.chunkStartIndex"
  requireSafeUint metadata.chunkEndIndex "metadata.chunkEndIndex"
  requireSafeUint metadata.totalSize "metadata.totalSize"
  demand (metadata.schemaVersion = 1 ∧ metadata.messageType = MESSAGE_TYPE_UNKNOWN ∧
      metadata.name = SESSION_METADATA_NAME ∧ metadata.date = some 0)
    (.error "session: unsupported encrypted metadata")
  demand (metadata.totalSize = first.totalSize ∧ metadata.hash = first.hash)
    (.error "session: inconsistent encrypted metadata")
  demand (metadata.chunkIndex < expectedChunks ∧ metadata.chunkStartIndex = 0)
    (.error "session: invalid encrypted chunk range")
  demand (metadata.chunkEndIndex = usefulLength first.totalSize metadata.chunkIndex)
    (.error "session: invalid encrypted chunk length")
  demand (byIndex.has metadata.chunkIndex = false) (.error "session: duplicate encrypted chunk")
  return byIndex.set metadata.chunkIndex record

/-- The bytes chunk `index` contributes (session.ts:512-517). -/
def recordBytes (byIndex : OrdMap Nat DecryptedRecord) (index : Nat) : Except JsError Bytes :=
  match byIndex.get index with
  | none => .error (.error "session: missing encrypted chunk")
  | some record => .ok (record.chunk.take record.metadata.chunkEndIndex)

/-- `validateAndJoinRecords` (session.ts:466-527). -/
def validateAndJoinRecords (records : List DecryptedRecord) : Except JsError Bytes := do
  match records with
  | [] => .error (.error "session: encrypted message has no frames")
  | record :: _ =>
    let first := record.metadata
    requireSafeUint first.totalSize "metadata.totalSize"
    let expectedChunks := chunkCount first.totalSize
    demand (records.length = expectedChunks) (.error "session: incomplete or excessive frame set")
    let byIndex ← records.foldlM (validateRecord first expectedChunks) OrdMap.empty
    let parts ← (List.range expectedChunks).mapM (recordBytes byIndex)
    let plaintext := parts.flatten
    demand (L.sha512 plaintext = first.hash) (.error "session: plaintext hash mismatch")
    return plaintext

/-! ## Sending and receiving -/

/-- Adopt a staged ratchet and staged active keys and count one application
message (session.ts:614-616, 695-701). The live ratchet then owns the buffers of
the staged one, so when the count throws the `finally` block wipes the live ratchet. -/
def adoptAndCount (next : RatchetState) (activeReceiveKeys : OrdMap String Bytes) : SessionM Unit := do
  modify fun s => { s with state := next, pq := { s.pq with activeReceiveKeys } }
  let s ← get
  match noteApplicationMessage.run s.pq with
  | .ok _ pq => set { s with pq }
  | .error e pq =>
    set { s with state := wipeRatchet next, pq }
    throw e

/-- What `encrypt` does on a clone of the ratchet (session.ts:600-613): the message,
and the clone after its step. -/
def sealMessage (s : Session) (plaintext : Bytes) (ρ : EncryptRandomness) :
    Except JsError (EncryptedSessionMessage × RatchetState) := do
  let prepared ← prepareMessage L plaintext ρ
  match (ratchetEncrypt L).run (cloneRatchet s.state) with
  | .error e _ => .error e
  | .ok (messageKey, header) next =>
    let frames ← prepared.plaintexts.zipIdx.mapM fun (chunk, index) =>
      sealChunk L messageKey header chunk prepared.root (some s.pq.currentMessageContext)
        (ρ.nonce index)
    return ({ protocolVersion := PROTOCOL_VERSION, root := prepared.root, frames }, next)

/-- `encrypt` (session.ts:583-631). -/
def encrypt (plaintext : Bytes) (ρ : EncryptRandomness) : SessionM EncryptedSessionMessage := do
  assertLive
  let s ← get
  ensure (s.pq.trafficBlocked = false) (.error "session: sparse-PQ healing is in progress")
  ensure (s.state.sendingChainKey.isSome = true) (.error "ratchet: no sending chain")
  let (message, next) ← attempt (sealMessage L s plaintext ρ)
  adoptAndCount next s.pq.activeReceiveKeys
  return message

/-- `sameRatchetHeader` (session.ts:529-535). -/
def sameRatchetHeader (left right : RatchetHeader) : Bool :=
  left.N == right.N && left.PN == right.PN && left.dhPub == right.dhPub

/-- The checks `decrypt` makes before it takes the mutex (session.ts:634-645). -/
def checkMessage (message : EncryptedSessionMessage) : Except JsError Unit := do
  demand (message.protocolVersion = PROTOCOL_VERSION) (.error "session: unsupported protocol version")
  requireBytes message.root "message.root" HASH_BYTES
  demand (message.frames ≠ []) (.error "session: encrypted message has no frames")
  demand (∀ frame ∈ message.frames, frame.length = WIRE_CHUNK_FRAME_LEN)
    (.error "session: invalid encrypted frame length")

/-- The checks on the parsed headers (session.ts:651-663). -/
def checkHeaders (parsed : List ParsedChunkFrame) : Except JsError Unit := do
  demand (∀ p ∈ parsed, ∀ q ∈ parsed.head?, sameRatchetHeader q.header p.header = true)
    (.error "session: mixed ratchet headers")
  demand ((parsed.map (·.nonce)).Nodup) (.error "session: duplicate chunk nonce")

/-- The loop of `decrypt` over its frames (session.ts:674-692), on staged copies,
with the secret each frame's DH step would use. -/
def decryptFrames (resolver : PqMessageKeyContextResolver) (root : Bytes) (secretKey : Nat → RandomBytes 32) :
    List (Bytes × Nat) → EStateM JsError ChunkReceiver (List DecryptedRecord)
  | [] => return []
  | (frame, index) :: rest => do
    let result ← decryptMessageChunk L frame root (some resolver) (secretKey index).val
    match result.ok, result.decrypted with
    | true, some decrypted =>
      let metadata ← attempt (deserializeMetadata (decrypted.take METADATA_LEN))
      let record : DecryptedRecord := ⟨metadata, decrypted.drop (METADATA_LEN + PROOF_LEN)⟩
      return record :: (← decryptFrames resolver root secretKey rest)
    | _, _ => throw (.error "session: encrypted frame authentication failed")

/-- The resolver a session passes (session.ts:680): its runtime's. -/
def resolver (s : Session) : PqMessageKeyContextResolver :=
  fun epoch => .ok (s.pq.resolveMessageContext epoch)

/-- What `decrypt` does on staged copies of the ratchet and the active keys
(session.ts:650-694): the plaintext, and the staged copies when it is valid. -/
def openMessage (s : Session) (message : EncryptedSessionMessage) (secretKey : Nat → RandomBytes 32) :
    Except JsError (Bytes × ChunkReceiver) := do
  let parsed ← message.frames.mapM parseChunkFrameHeader
  checkHeaders parsed
  match (decryptFrames L s.resolver message.root secretKey message.frames.zipIdx).run
      ⟨cloneRatchet s.state, s.pq.activeReceiveKeys⟩ with
  | .error e _ => .error e
  | .ok records staged =>
    let plaintext ← validateAndJoinRecords L records
    return (plaintext, staged)

/-- `#adoptActiveReceiveKeys` (session.ts:714-717). -/
def adoptActiveReceiveKeys (live staged : OrdMap String Bytes) : OrdMap String Bytes :=
  live.merge staged.entries

/-- `decrypt` (session.ts:633-712). -/
def decrypt (message : EncryptedSessionMessage) (secretKey : Nat → RandomBytes 32) : SessionM Bytes := do
  attempt (checkMessage message)
  assertLive
  let s ← get
  let (plaintext, staged) ← attempt (openMessage L s message secretKey)
  adoptAndCount staged.state (adoptActiveReceiveKeys s.pq.activeReceiveKeys staged.cache)
  return plaintext

/-! ## Healing -/

/-- `prepareHealing` (session.ts:719-727), with its three readings of the clock; `fails`
says whether the AEAD fails if the method gets to seal. -/
def prepareHealingWith (fails : Bool) (coins : Bytes) (nonce : Nonce)
    (due now dispatched : Instant) : SessionM SessionControlOutput := do
  assertLive
  if ← attempt ((← get).pq.healingDue due.val) then
    let frame ← onPq (prepareHealingOfferWith L fails coins nonce now.val)
    onPq (markPendingDispatched dispatched.val)
    return ⟨some frame, true⟩
  else return NO_CONTROL

/-- `prepareHealing` over an AEAD that works. -/
def prepareHealing (coins : Bytes) (nonce : Nonce) (due now dispatched : Instant) :
    SessionM SessionControlOutput :=
  prepareHealingWith L false coins nonce due now dispatched

/-- `acceptControlFrame` (session.ts:729-742), with its two readings of the clock. -/
def acceptControlFrameWith (fails : Bool) (frame coins : Bytes) (nonce : Nonce) (now dispatched : Instant) :
    SessionM SessionControlOutput := do
  attempt (requireBytes frame "control frame" WIRE_CHUNK_FRAME_LEN)
  assertLive
  let result ← onPq (PqHealingRuntime.acceptControlFrameWith L fails frame coins nonce now.val)
  if result.changed && result.dispatch.isSome && (← get).pq.pendingRetryAt.isSome then
    onPq (markPendingDispatched dispatched.val)
  return ⟨result.dispatch, result.changed⟩

/-- `acceptControlFrame` over an AEAD that works. -/
def acceptControlFrame (frame coins : Bytes) (nonce : Nonce) (now dispatched : Instant) :
    SessionM SessionControlOutput :=
  acceptControlFrameWith L false frame coins nonce now dispatched

/-- `pendingControl` (session.ts:744-749). -/
def pendingControl : SessionM (Option Bytes) := do
  assertLive
  return (← get).pq.copyPendingFrame

/-! ## What a call does -/

variable {L} {s : Session}

/-- The session that adopted a staged ratchet and keys and counted a message. -/
def adopted (s : Session) (next : RatchetState) (activeReceiveKeys : OrdMap String Bytes) :
    Session :=
  { s with state := next, pq := { s.pq with activeReceiveKeys }.counted }

/-- The session left by a count that overflowed. -/
def overflowed (s : Session) (next : RatchetState) (activeReceiveKeys : OrdMap String Bytes) :
    Session :=
  { s with state := wipeRatchet next, pq := { s.pq with activeReceiveKeys } }

theorem adoptAndCount_run (next : RatchetState) (keys : OrdMap String Bytes) :
    (adoptAndCount next keys).run s =
      if s.pq.messagesSinceHealing < MAX_SAFE_INTEGER then .ok () (s.adopted next keys)
      else .error (PqHealingRuntime.failure "application-message counter overflow")
        (s.overflowed next keys) := by
  have hnote := @noteApplicationMessage_run { s.pq with activeReceiveKeys := keys }
  unfold adoptAndCount
  rw [run_bind_of_ok (show (modify _ : SessionM Unit).run s = .ok () _ from rfl), run_get_bind]
  by_cases h : s.pq.messagesSinceHealing < MAX_SAFE_INTEGER
  · rw [if_pos h] at hnote ⊢
    rw [hnote]
    rfl
  · rw [if_neg h] at hnote ⊢
    rw [hnote]
    rfl

theorem run_assertLive_bind {α : Type} {f : Unit → SessionM α} (h : s.destroyed = false) :
    (assertLive >>= f).run s = (f ()).run s := by
  refine run_bind_of_ok ?_
  unfold assertLive
  rw [run_get_bind, run_ensure, if_pos h]

theorem run_assertLive_destroyed {α : Type} {f : Unit → SessionM α} (h : ¬ s.destroyed = false) :
    (assertLive >>= f).run s = .error (.error "session: session is destroyed") s := by
  refine run_bind_of_error ?_
  unfold assertLive
  rw [run_get_bind, run_ensure, if_neg h]

variable {message : EncryptedSessionMessage} {plaintext : Bytes} {secretKey : Nat → RandomBytes 32}
  {ρ : EncryptRandomness}

/-- A message that opens is adopted and counted. -/
theorem decrypt_run {staged : ChunkReceiver} (hcheck : checkMessage message = .ok ())
    (hlive : s.destroyed = false) (hopen : openMessage L s message secretKey = .ok (plaintext, staged)) :
    (decrypt L message secretKey).run s =
      if s.pq.messagesSinceHealing < MAX_SAFE_INTEGER then
        .ok plaintext (s.adopted staged.state
          (adoptActiveReceiveKeys s.pq.activeReceiveKeys staged.cache))
      else .error (PqHealingRuntime.failure "application-message counter overflow")
        (s.overflowed staged.state
          (adoptActiveReceiveKeys s.pq.activeReceiveKeys staged.cache)) := by
  unfold decrypt
  rw [run_attempt_of_ok hcheck, run_assertLive_bind hlive, run_get_bind, run_attempt_of_ok hopen]
  show (adoptAndCount _ _ >>= _).run s = _
  have hadopt := @adoptAndCount_run s staged.state
    (adoptActiveReceiveKeys s.pq.activeReceiveKeys staged.cache)
  by_cases h : s.pq.messagesSinceHealing < MAX_SAFE_INTEGER
  · rw [if_pos h] at hadopt ⊢
    rw [run_bind_of_ok hadopt]
    rfl
  · rw [if_neg h] at hadopt ⊢
    rw [run_bind_of_error hadopt]

/-- A message that opened was joined from the records of its frames. -/
theorem openMessage_steps {staged : ChunkReceiver}
    (h : openMessage L s message secretKey = .ok (plaintext, staged)) :
    ∃ parsed records, message.frames.mapM parseChunkFrameHeader = .ok parsed ∧ checkHeaders parsed = .ok () ∧
      (decryptFrames L s.resolver message.root secretKey message.frames.zipIdx).run
        ⟨cloneRatchet s.state, s.pq.activeReceiveKeys⟩ = .ok records staged ∧
      validateAndJoinRecords L records = .ok plaintext := by
  unfold openMessage at h
  obtain ⟨parsed, hparsed, h⟩ := except_bind_eq_ok.mp h
  obtain ⟨_, hheaders, h⟩ := except_bind_eq_ok.mp h
  cases hrun : (decryptFrames L s.resolver message.root secretKey message.frames.zipIdx).run
      ⟨cloneRatchet s.state, s.pq.activeReceiveKeys⟩ with
  | error e r =>
    rw [hrun] at h
    cases h
  | ok records r =>
    rw [hrun] at h
    obtain ⟨joined, hjoin, h⟩ := except_bind_eq_ok.mp h
    cases h
    exact ⟨parsed, records, hparsed, hheaders, rfl, hjoin⟩

/-- A call of `decrypt` throws with nothing changed, or its message opened. -/
theorem decrypt_cases (s : Session) (message : EncryptedSessionMessage) (secretKey : Nat → RandomBytes 32) :
    (∃ e, (decrypt L message secretKey).run s = .error e s) ∨
      (checkMessage message = .ok () ∧ s.destroyed = false ∧
        ∃ plaintext staged, openMessage L s message secretKey = .ok (plaintext, staged)) := by
  unfold decrypt
  rw [run_attempt_bind]
  cases hcheck : checkMessage message with
  | error e => exact .inl ⟨e, rfl⟩
  | ok _ =>
    by_cases hlive : s.destroyed = false
    · simp only [run_assertLive_bind hlive, run_get_bind, run_attempt_bind]
      cases hopen : openMessage L s message secretKey with
      | error e => exact .inl ⟨e, rfl⟩
      | ok opened => exact .inr ⟨trivial, hlive, opened.1, opened.2, rfl⟩
    · simp only [run_assertLive_destroyed hlive]
      exact .inl ⟨_, rfl⟩

/-- A message that can be sealed is sealed, and the clone adopted and counted. -/
theorem encrypt_run {next : RatchetState} (hlive : s.destroyed = false)
    (hfree : s.pq.trafficBlocked = false) (hchain : s.state.sendingChainKey.isSome = true)
    (hseal : sealMessage L s plaintext ρ = .ok (message, next)) :
    (encrypt L plaintext ρ).run s =
      if s.pq.messagesSinceHealing < MAX_SAFE_INTEGER then
        .ok message (s.adopted next s.pq.activeReceiveKeys)
      else .error (PqHealingRuntime.failure "application-message counter overflow")
        (s.overflowed next s.pq.activeReceiveKeys) := by
  unfold encrypt
  rw [run_assertLive_bind hlive, run_get_bind, run_ensure_of hfree, run_ensure_of hchain,
    run_attempt_of_ok hseal]
  show (adoptAndCount _ _ >>= _).run s = _
  have hadopt := @adoptAndCount_run s next s.pq.activeReceiveKeys
  by_cases h : s.pq.messagesSinceHealing < MAX_SAFE_INTEGER
  · rw [if_pos h] at hadopt ⊢
    rw [run_bind_of_ok hadopt]
    rfl
  · rw [if_neg h] at hadopt ⊢
    rw [run_bind_of_error hadopt]

/-- A call of `encrypt` throws with nothing changed, or its message was sealed. -/
theorem encrypt_cases (s : Session) (plaintext : Bytes) (ρ : EncryptRandomness) :
    (∃ e, (encrypt L plaintext ρ).run s = .error e s) ∨
      (s.destroyed = false ∧ s.pq.trafficBlocked = false ∧ s.state.sendingChainKey.isSome = true ∧
        ∃ message next, sealMessage L s plaintext ρ = .ok (message, next)) := by
  by_cases hlive : s.destroyed = false
  · by_cases hfree : s.pq.trafficBlocked = false
    · by_cases hchain : s.state.sendingChainKey.isSome = true
      · cases hseal : sealMessage L s plaintext ρ with
        | ok result => exact .inr ⟨hlive, hfree, hchain, result.1, result.2, rfl⟩
        | error e =>
          refine .inl ⟨e, ?_⟩
          unfold encrypt
          rw [run_assertLive_bind hlive, run_get_bind, run_ensure_of hfree, run_ensure_of hchain,
            run_attempt_of_error hseal]
      · refine .inl ⟨.error "ratchet: no sending chain", ?_⟩
        unfold encrypt
        rw [run_assertLive_bind hlive, run_get_bind, run_ensure_of hfree, run_ensure_of_not hchain]
    · refine .inl ⟨.error "session: sparse-PQ healing is in progress", ?_⟩
      unfold encrypt
      rw [run_assertLive_bind hlive, run_get_bind, run_ensure_of_not hfree]
  · refine .inl ⟨.error "session: session is destroyed", ?_⟩
    unfold encrypt
    rw [run_assertLive_destroyed hlive]

end Session

end P2Party
