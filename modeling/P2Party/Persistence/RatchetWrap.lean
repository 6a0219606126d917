import P2Party.Base.Codec
import P2Party.Base.HexUnits
import P2Party.Base.JsString
import P2Party.Cryptography.WebCrypto
import P2Party.Messages.ChunkFrame

/-!
# Ratchet rows at rest (`db/ratchetWrap.ts`)

A row of the ratchet store keeps its public fields in the clear and every secret in an
envelope of its own. The associated data of each envelope spells all public fields, the name
of the secret, its index and the id of the row's write.

- `canonicalRatchetAad`, `wrapRatchetField`, `unwrapRatchetField`: one envelope;
- `wrapRatchetSession`, `unwrapRatchetSession`: a row;
- `ClearFields`, `secret`: a row as its public fields and a family of secrets, and
  `eq_of_clear_secret`: it is nothing else;
- `replaceSecrets_eq_ok`: wrapping and unwrapping act on each secret separately.
-/

namespace P2Party

open Base

namespace RatchetWrap

/-! ## Constants and checks -/

/-- `RATCHET_RECORD_ID_BYTES` (ratchetWrap.ts:10). -/
abbrev RATCHET_RECORD_ID_BYTES : Nat := 16

/-- `GCM_TAG_BYTES` (ratchetWrap.ts:9). -/
abbrev GCM_TAG_BYTES : Nat := 16

/-- `RATCHET_WRAP_VERSION` (ratchetWrap.ts:17). -/
def RATCHET_WRAP_VERSION : UInt8 := 2

/-- `RATCHET_WRAP_MAGIC`, "P2RW" (ratchetWrap.ts:18). -/
def RATCHET_WRAP_MAGIC : Bytes := [0x50, 0x32, 0x52, 0x57]

/-- `RATCHET_WRAP_HEADER_BYTES` (ratchetWrap.ts:19-20): magic, version, record id, IV. -/
abbrev RATCHET_WRAP_HEADER_BYTES : Nat := 33

/-- `MAX_EDGE_CRYPTO_STATE_BYTES` (ratchetWrap.ts:22). -/
abbrev MAX_EDGE_CRYPTO_STATE_BYTES : Nat := 256 * 1024

/-- `RATCHET_AAD_DOMAIN` (ratchetWrap.ts:23-25). -/
def RATCHET_AAD_DOMAIN : Bytes := textEncode "p2party-edge-crypto-at-rest-aad-v2"

/-- `MAX_AAD_STRING_BYTES` (ratchetWrap.ts:26). -/
abbrev MAX_AAD_STRING_BYTES : Nat := 2 ^ 20

/-- `RatchetSecretField` (ratchetWrap.ts:28-35). -/
inductive RatchetSecretField
  | rootKey
  | sendingChainKey
  | receivingChainKey
  | dhSelfSecret
  | skippedMessageKey
  | edgeCryptoState
deriving DecidableEq, Repr

/-- The number of a field. -/
def RatchetSecretField.tag : RatchetSecretField → UInt8
  | .rootKey => 1
  | .sendingChainKey => 2
  | .receivingChainKey => 3
  | .dhSelfSecret => 4
  | .skippedMessageKey => 5
  | .edgeCryptoState => 6

/-- `requireBuffer` with a length (ratchetWrap.ts:39-49). -/
def requireBuffer (value : Bytes) (name : String) (expectedLength : Nat) : Except JsError Unit :=
  demand (value.length = expectedLength)
    (.error (name ++ " must be " ++ toString expectedLength ++ " bytes"))

/-- The same on a buffer that may be absent. -/
def requireOptionalBuffer (value : Option Bytes) (name : String) (expectedLength : Nat) :
    Except JsError Unit :=
  match value with
  | none => .ok ()
  | some value => requireBuffer value name expectedLength

/-- `requireSafeUint` (ratchetWrap.ts:51-55). -/
def requireSafeUint (value : Nat) (name : String) : Except JsError Unit :=
  demand (value ≤ MAX_SAFE_INTEGER) (.error (name ++ " must be a safe unsigned integer"))

/-- `requireCanonicalString` (ratchetWrap.ts:57-69). -/
def requireCanonicalString (value : JsString) (name : String) : Except JsError Unit := do
  demand (value.length ≠ 0) (.error (name ++ " must be a non-empty string"))
  demand (¬ value.encode.length > MAX_AAD_STRING_BYTES) (.error (name ++ " is too long"))
  demand (JsString.decode value.encode = value) (.error (name ++ " is not canonical Unicode"))

/-- `lengthPrefixed` (ratchetWrap.ts:97-98). The range check of `encodeU32` cannot fail on
fields that `validateMetadata` has accepted. -/
def lengthPrefixed (bytes : Bytes) : Bytes := beBytes 4 bytes.length ++ bytes

/-- `encodeString` (ratchetWrap.ts:100-101). -/
def encodeString (value : JsString) : Bytes := lengthPrefixed value.encode

/-! ## Rows -/

/-- `RatchetSession` (db/types.ts:169-205). -/
structure RatchetSession where
  rootSuite : RatchetRootSuite
  roomId : JsString
  peerPublicKey : JsString
  peerId : JsString
  rootKey : Bytes
  sendingChainKey : Option Bytes
  receivingChainKey : Option Bytes
  dhSelfPub : Bytes
  dhSelfSec : Bytes
  dhRemotePub : Option Bytes
  Ns : Nat
  Nr : Nat
  PN : Nat
  skippedMessageKeys : List SkippedMessageKey
  edgeCryptoState : Option Bytes
  updatedAt : Nat
deriving DecidableEq

/-- The checks of `validateMetadata` on one skipped key (ratchetWrap.ts:150-153). -/
def validateSkipped : Nat → List SkippedMessageKey → Except JsError Unit
  | _, [] => .ok ()
  | index, skipped :: rest => do
    requireBuffer skipped.dhPub ("ratchet skipped[" ++ toString index ++ "].dhPub") 32
    requireSafeUint skipped.n ("ratchet skipped[" ++ toString index ++ "].n")
    validateSkipped (index + 1) rest

/-- `validateMetadata` (ratchetWrap.ts:129-168). -/
def validateMetadata (s : RatchetSession) : Except JsError Unit := do
  requireCanonicalString s.roomId "ratchet roomId"
  requireCanonicalString s.peerPublicKey "ratchet peerPublicKey"
  demand (s.peerPublicKey.length = 64 ∧ s.peerPublicKey.all isLowerHexUnit)
    (.error "ratchet peerPublicKey must be 32-byte lowercase hex")
  requireCanonicalString s.peerId "ratchet peerId"
  requireBuffer s.dhSelfPub "ratchet dhSelfPub" 32
  requireOptionalBuffer s.dhRemotePub "ratchet dhRemotePub" 32
  requireSafeUint s.Ns "ratchet Ns"
  requireSafeUint s.Nr "ratchet Nr"
  requireSafeUint s.PN "ratchet PN"
  requireSafeUint s.updatedAt "ratchet updatedAt"
  demand (¬ s.skippedMessageKeys.length > MAX_SKIP_SESSION)
    (.error "ratchet skipped-message-key count is invalid")
  validateSkipped 0 s.skippedMessageKeys
  demand (∀ checkpoint ∈ s.edgeCryptoState, ¬ (checkpoint.length < 1 ∨
      checkpoint.length > MAX_EDGE_CRYPTO_STATE_BYTES + RATCHET_WRAP_HEADER_BYTES + GCM_TAG_BYTES))
    (.error "ratchet edge crypto state length is invalid")

/-- The flag byte of the associated data (ratchetWrap.ts:239-243). -/
def aadFlags (s : RatchetSession) : UInt8 :=
  (if s.sendingChainKey.isSome then 1 else 0) + (if s.receivingChainKey.isSome then 2 else 0) +
    (if s.dhRemotePub.isSome then 4 else 0) + (if s.edgeCryptoState.isSome then 8 else 0)

/-- The bytes `canonicalRatchetAad` writes (ratchetWrap.ts:244-271). -/
def aadBytes (s : RatchetSession) (field : RatchetSecretField) (recordId : Bytes)
    (fieldIndex : Nat) : Bytes :=
  lengthPrefixed RATCHET_AAD_DOMAIN ++ ([RATCHET_WRAP_VERSION, field.tag] ++
    (lengthPrefixed recordId ++ (beBytes 4 fieldIndex ++
    (lengthPrefixed (textEncode s.rootSuite.text) ++ (encodeString s.roomId ++
    (encodeString s.peerPublicKey ++ (encodeString s.peerId ++ (lengthPrefixed s.dhSelfPub ++
    ([aadFlags s] ++ ((s.dhRemotePub.map lengthPrefixed).getD [] ++ (beBytes 8 s.Ns ++
    (beBytes 8 s.Nr ++ (beBytes 8 s.PN ++ (beBytes 8 s.updatedAt ++
    (beBytes 4 s.skippedMessageKeys.length ++
    s.skippedMessageKeys.flatMap fun e => lengthPrefixed e.dhPub ++ beBytes 8 e.n)))))))))))))))

/-- `canonicalRatchetAad` (ratchetWrap.ts:230-272). -/
def canonicalRatchetAad (s : RatchetSession) (field : RatchetSecretField) (recordId : Bytes)
    (fieldIndex : Nat) : Except JsError Bytes := do
  validateMetadata s
  demand (recordId.length = RATCHET_RECORD_ID_BYTES) (.error "ratchet wrap: invalid record ID")
  return aadBytes s field recordId fieldIndex

/-! ## Envelopes -/

/-- The length of an envelope around a secret of a known length, or of the edge checkpoint
(ratchetWrap.ts:278-293). -/
def EnvelopeLength (expectedPlaintextBytes : Option Nat) (length : Nat) : Prop :=
  match expectedPlaintextBytes with
  | some expected => length = RATCHET_WRAP_HEADER_BYTES + expected + GCM_TAG_BYTES
  | none => RATCHET_WRAP_HEADER_BYTES + 1 + GCM_TAG_BYTES ≤ length ∧
      length ≤ RATCHET_WRAP_HEADER_BYTES + MAX_EDGE_CRYPTO_STATE_BYTES + GCM_TAG_BYTES

instance (expected : Option Nat) (length : Nat) : Decidable (EnvelopeLength expected length) := by
  unfold EnvelopeLength
  cases expected <;> exact inferInstance

/-- `ratchetEnvelopeRecordId` (ratchetWrap.ts:274-306). -/
def ratchetEnvelopeRecordId (blob : Bytes) (expectedPlaintextBytes : Option Nat) :
    Except JsError Bytes := do
  demand (EnvelopeLength expectedPlaintextBytes blob.length)
    (.error "Unsupported or malformed ratchet wrap envelope")
  demand (blob.take 4 = RATCHET_WRAP_MAGIC)
    (.error "Unsupported or malformed ratchet wrap envelope")
  demand (blob.getD 4 0 = RATCHET_WRAP_VERSION)
    (.error "Unsupported or malformed ratchet wrap envelope")
  return slice blob 5 RATCHET_RECORD_ID_BYTES

/-- The length a secret must have: 32 bytes, or the bounds of the edge checkpoint. -/
def PlaintextLength (expectedPlaintextBytes : Option Nat) (length : Nat) : Prop :=
  match expectedPlaintextBytes with
  | some expected => length = expected
  | none => 1 ≤ length ∧ length ≤ MAX_EDGE_CRYPTO_STATE_BYTES

instance (expected : Option Nat) (length : Nat) : Decidable (PlaintextLength expected length) := by
  unfold PlaintextLength
  cases expected <;> exact inferInstance

/-- A random IV of `GCM_IV_BYTES` bytes. -/
abbrev Iv := { bytes : Bytes // bytes.length = 12 }

instance : Inhabited Iv := ⟨⟨List.replicate 12 0, length_zeros_twelve⟩⟩

variable (W : WebCrypto)

/-- `wrapRatchetField` (ratchetWrap.ts:308-346); the two checks on the length of the secret
differ in their message only. -/
def wrapRatchetField (key plaintext aad recordId : Bytes) (expectedPlaintextBytes : Option Nat)
    (iv : Iv) : Except JsError Bytes := do
  demand (PlaintextLength expectedPlaintextBytes plaintext.length)
    (.error (if expectedPlaintextBytes.isSome then "ratchet secret must be 32 bytes"
      else "ratchet variable secret length is invalid"))
  demand (recordId.length = RATCHET_RECORD_ID_BYTES) (.error "ratchet wrap: invalid record ID")
  return RATCHET_WRAP_MAGIC ++ (RATCHET_WRAP_VERSION :: (recordId ++ (iv.val ++
    W.encrypt key iv.val aad plaintext)))

/-- `unwrapRatchetField` (ratchetWrap.ts:348-387). -/
def unwrapRatchetField (key envelope aad expectedRecordId : Bytes)
    (expectedPlaintextBytes : Option Nat) : Except JsError Bytes := do
  let recordId ← ratchetEnvelopeRecordId envelope expectedPlaintextBytes
  demand (recordId = expectedRecordId) (.error "Ratchet wrap record ID mismatch")
  match W.decrypt key (slice envelope 21 12) aad (envelope.drop RATCHET_WRAP_HEADER_BYTES) with
  | none => .error (.error "OperationError")
  | some plaintext =>
    demand (PlaintextLength expectedPlaintextBytes plaintext.length)
      (.error "Ratchet wrapped secret has an invalid plaintext length")
    return plaintext

/-! ## Wrapping a row -/

/-- What `crypto.getRandomValues` draws for one row. -/
structure Draws where
  recordId : { bytes : Bytes // bytes.length = RATCHET_RECORD_ID_BYTES }
  iv : RatchetSecretField → Nat → Iv

/-- The loop over the skipped keys: each message key is replaced, with its index. -/
def replaceKeys (f : Nat → Bytes → Except JsError Bytes) : Nat → List SkippedMessageKey →
    Except JsError (List SkippedMessageKey)
  | _, [] => return []
  | index, skipped :: rest => do
    let messageKey ← f index skipped.messageKey
    return { skipped with messageKey } :: (← replaceKeys f (index + 1) rest)

/-- Replace a secret that may be absent. -/
def replaceOptional (f : Bytes → Except JsError Bytes) : Option Bytes → Except JsError (Option Bytes)
  | none => return none
  | some secret => return some (← f secret)

/-- Replace every secret of a row, in the order of the source. -/
def replaceSecrets (f : RatchetSecretField → Nat → Bytes → Except JsError Bytes)
    (s : RatchetSession) : Except JsError RatchetSession := do
  let rootKey ← f .rootKey 0 s.rootKey
  let sendingChainKey ← replaceOptional (f .sendingChainKey 0) s.sendingChainKey
  let receivingChainKey ← replaceOptional (f .receivingChainKey 0) s.receivingChainKey
  let dhSelfSec ← f .dhSelfSecret 0 s.dhSelfSec
  let skippedMessageKeys ← replaceKeys (f .skippedMessageKey) 0 s.skippedMessageKeys
  let edgeCryptoState ← replaceOptional (f .edgeCryptoState 0) s.edgeCryptoState
  return { s with
    rootKey, sendingChainKey, receivingChainKey, dhSelfSec, skippedMessageKeys, edgeCryptoState }

/-- The length of the plaintext of a field: 32 bytes but for the edge checkpoint. -/
def RatchetSecretField.expectedPlaintextBytes : RatchetSecretField → Option Nat
  | .edgeCryptoState => none
  | _ => some 32

/-- The loop over the message keys of a plaintext row. -/
def requireMessageKeys : Nat → List SkippedMessageKey → Except JsError Unit
  | _, [] => .ok ()
  | index, skipped :: rest => do
    requireBuffer skipped.messageKey ("ratchet skipped[" ++ toString index ++ "].messageKey") 32
    requireMessageKeys (index + 1) rest

/-- The checks of `wrapRatchetSession` on the secrets (ratchetWrap.ts:599-619). -/
def requireSecrets (s : RatchetSession) : Except JsError Unit := do
  requireBuffer s.rootKey "ratchet rootKey" 32
  requireOptionalBuffer s.sendingChainKey "ratchet sendingChainKey" 32
  requireOptionalBuffer s.receivingChainKey "ratchet receivingChainKey" 32
  requireBuffer s.dhSelfSec "ratchet dhSelfSec" 32
  requireMessageKeys 0 s.skippedMessageKeys
  demand (∀ checkpoint ∈ s.edgeCryptoState,
      ¬ (checkpoint.length < 1 ∨ checkpoint.length > MAX_EDGE_CRYPTO_STATE_BYTES))
    (.error "ratchet edge crypto state length is invalid")

/-- `wrapRatchetSession` (ratchetWrap.ts:593-705). -/
def wrapRatchetSession (s : RatchetSession) (key : Bytes) (draws : Draws) :
    Except JsError RatchetSession := do
  validateMetadata s
  requireSecrets s
  let recordId := draws.recordId.val
  replaceSecrets (fun field index plaintext => do
    let aad ← canonicalRatchetAad s field recordId index
    wrapRatchetField W key plaintext aad recordId field.expectedPlaintextBytes
      (draws.iv field index)) s

/-- `unwrapRatchetSession` without a rollback guard (ratchetWrap.ts:707-815). -/
def unwrapRatchetSession (s : RatchetSession) (key : Bytes) : Except JsError RatchetSession := do
  validateMetadata s
  let recordId ← ratchetEnvelopeRecordId s.rootKey (some 32)
  replaceSecrets (fun field index envelope => do
    let aad ← canonicalRatchetAad s field recordId index
    unwrapRatchetField W key envelope aad recordId field.expectedPlaintextBytes) s

/-! ## A row as its public fields and its secrets -/

/-- What stays readable in a stored row: the public fields and which secrets there are. -/
structure ClearFields where
  rootSuite : RatchetRootSuite
  roomId : JsString
  peerPublicKey : JsString
  peerId : JsString
  dhSelfPub : Bytes
  dhRemotePub : Option Bytes
  Ns : Nat
  Nr : Nat
  PN : Nat
  updatedAt : Nat
  skipped : List (Bytes × Nat)
  hasSending : Bool
  hasReceiving : Bool
  hasEdge : Bool
deriving DecidableEq

/-- The public fields of a row. -/
def RatchetSession.clear (s : RatchetSession) : ClearFields where
  rootSuite := s.rootSuite
  roomId := s.roomId
  peerPublicKey := s.peerPublicKey
  peerId := s.peerId
  dhSelfPub := s.dhSelfPub
  dhRemotePub := s.dhRemotePub
  Ns := s.Ns
  Nr := s.Nr
  PN := s.PN
  updatedAt := s.updatedAt
  skipped := s.skippedMessageKeys.map fun e => (e.dhPub, e.n)
  hasSending := s.sendingChainKey.isSome
  hasReceiving := s.receivingChainKey.isSome
  hasEdge := s.edgeCryptoState.isSome

/-- The message key at an index. -/
def messageKeyAt (es : List SkippedMessageKey) (index : Nat) : Option Bytes :=
  es[index]?.map SkippedMessageKey.messageKey

/-- The secret of a row under a field and an index; only message keys have an index. -/
def RatchetSession.secret (s : RatchetSession) : RatchetSecretField → Nat → Option Bytes
  | .rootKey, 0 => some s.rootKey
  | .sendingChainKey, 0 => s.sendingChainKey
  | .receivingChainKey, 0 => s.receivingChainKey
  | .dhSelfSecret, 0 => some s.dhSelfSec
  | .skippedMessageKey, index => messageKeyAt s.skippedMessageKeys index
  | .edgeCryptoState, 0 => s.edgeCryptoState
  | _, _ + 1 => none

theorem messageKeys_ext {es es' : List SkippedMessageKey}
    (hclear : es.map (fun e => (e.dhPub, e.n)) = es'.map fun e => (e.dhPub, e.n))
    (hkeys : ∀ i, messageKeyAt es i = messageKeyAt es' i) : es = es' := by
  induction es generalizing es' with
  | nil =>
    cases es' with
    | nil => rfl
    | cons e' es' => cases hclear
  | cons e es ih =>
    cases es' with
    | nil => cases hclear
    | cons e' es' =>
      obtain ⟨hhead, htail⟩ := List.cons.inj hclear
      obtain ⟨hdhPub, hn⟩ := Prod.mk.inj hhead
      have hkey : e.messageKey = e'.messageKey := Option.some.inj (hkeys 0)
      have hrest := ih htail fun i => hkeys (i + 1)
      cases e
      cases e'
      cases hdhPub
      cases hn
      cases hkey
      rw [hrest]

/-- A row is its public fields and its secrets. -/
theorem eq_of_clear_secret {s t : RatchetSession} (hclear : s.clear = t.clear)
    (hsecret : ∀ field index, s.secret field index = t.secret field index) : s = t := by
  have hskipped : s.skippedMessageKeys = t.skippedMessageKeys :=
    messageKeys_ext (ClearFields.mk.inj hclear).2.2.2.2.2.2.2.2.2.2.1
      fun i => hsecret .skippedMessageKey i
  have hroot : s.rootKey = t.rootKey := Option.some.inj (hsecret .rootKey 0)
  have hsending : s.sendingChainKey = t.sendingChainKey := hsecret .sendingChainKey 0
  have hreceiving : s.receivingChainKey = t.receivingChainKey := hsecret .receivingChainKey 0
  have hself : s.dhSelfSec = t.dhSelfSec := Option.some.inj (hsecret .dhSelfSecret 0)
  have hedge : s.edgeCryptoState = t.edgeCryptoState := hsecret .edgeCryptoState 0
  obtain ⟨h1, h2, h3, h4, h5, h6, h7, h8, h9, h10, -⟩ := ClearFields.mk.inj hclear
  cases s
  cases t
  simp only at hskipped hroot hsending hreceiving hself hedge h1 h2 h3 h4 h5 h6 h7 h8 h9 h10
  subst hskipped hroot hsending hreceiving hself hedge h1 h2 h3 h4 h5 h6 h7 h8 h9 h10
  rfl

/-- The public fields say which secrets there are. -/
theorem secret_isSome_of_clear {s t : RatchetSession} (hclear : s.clear = t.clear)
    (field : RatchetSecretField) (index : Nat) :
    (s.secret field index).isSome = (t.secret field index).isSome := by
  obtain ⟨-, -, -, -, -, -, -, -, -, -, hskipped, hsending, hreceiving, hedge⟩ :=
    ClearFields.mk.inj hclear
  cases field with
  | skippedMessageKey =>
    have hlength : s.skippedMessageKeys.length = t.skippedMessageKeys.length := by
      simpa using congrArg List.length hskipped
    simp only [RatchetSession.secret, messageKeyAt, Option.isSome_map]
    by_cases hindex : index < s.skippedMessageKeys.length
    · rw [List.getElem?_eq_getElem hindex, List.getElem?_eq_getElem (hlength ▸ hindex)]
      rfl
    · rw [List.getElem?_eq_none (Nat.le_of_not_lt hindex),
        List.getElem?_eq_none (hlength ▸ Nat.le_of_not_lt hindex)]
  | sendingChainKey =>
    cases index with
    | zero => exact hsending
    | succ n => rfl
  | receivingChainKey =>
    cases index with
    | zero => exact hreceiving
    | succ n => rfl
  | edgeCryptoState =>
    cases index with
    | zero => exact hedge
    | succ n => rfl
  | _ => cases index <;> rfl

/-- The secrets one after the other. -/
theorem forall_secret_iff {s : RatchetSession} {P : RatchetSecretField → Bytes → Prop} :
    (∀ field index e, s.secret field index = some e → P field e) ↔
      P .rootKey s.rootKey ∧ (∀ e ∈ s.sendingChainKey, P .sendingChainKey e) ∧
      (∀ e ∈ s.receivingChainKey, P .receivingChainKey e) ∧ P .dhSelfSecret s.dhSelfSec ∧
      (∀ e ∈ s.skippedMessageKeys, P .skippedMessageKey e.messageKey) ∧
      ∀ e ∈ s.edgeCryptoState, P .edgeCryptoState e := by
  constructor
  · intro h
    refine ⟨h .rootKey 0 _ rfl, fun e he => h .sendingChainKey 0 e he,
      fun e he => h .receivingChainKey 0 e he, h .dhSelfSecret 0 _ rfl, fun e he => ?_,
      fun e he => h .edgeCryptoState 0 e he⟩
    obtain ⟨i, hi, rfl⟩ := List.getElem_of_mem he
    refine h .skippedMessageKey i _ ?_
    show (s.skippedMessageKeys[i]?).map _ = _
    rw [List.getElem?_eq_getElem hi]
    rfl
  · rintro ⟨hroot, hsending, hreceiving, hself, hskipped, hedge⟩ field index e he
    cases field with
    | skippedMessageKey =>
      obtain ⟨skipped, hfound, rfl⟩ := Option.map_eq_some_iff.mp he
      exact hskipped skipped (List.mem_of_getElem? hfound)
    | rootKey =>
      cases index with
      | zero => exact Option.some.inj he ▸ hroot
      | succ n => cases he
    | sendingChainKey =>
      cases index with
      | zero => exact hsending e he
      | succ n => cases he
    | receivingChainKey =>
      cases index with
      | zero => exact hreceiving e he
      | succ n => cases he
    | dhSelfSecret =>
      cases index with
      | zero => exact Option.some.inj he ▸ hself
      | succ n => cases he
    | edgeCryptoState =>
      cases index with
      | zero => exact hedge e he
      | succ n => cases he

/-! ## Replacing secrets -/

/-- A secret was replaced by what `f` returned for it; an absent one stays absent. -/
def Replaced (f : Bytes → Except JsError Bytes) (old new : Option Bytes) : Prop :=
  match old with
  | none => new = none
  | some secret => ∃ secret', f secret = .ok secret' ∧ new = some secret'

theorem replaceOptional_eq_ok {f : Bytes → Except JsError Bytes} {old new : Option Bytes} :
    replaceOptional f old = .ok new ↔ Replaced f old new := by
  cases old with
  | none =>
    simp only [replaceOptional, Replaced, except_pure_eq_ok]
    exact eq_comm
  | some secret =>
    simp only [replaceOptional, Replaced, except_bind_eq_ok, except_pure_eq_ok]
    simp only [eq_comm]

theorem replaceKeys_eq_ok {f : Nat → Bytes → Except JsError Bytes} {start : Nat}
    {es es' : List SkippedMessageKey} :
    replaceKeys f start es = .ok es' ↔
      (es'.map fun e => (e.dhPub, e.n)) = (es.map fun e => (e.dhPub, e.n)) ∧
        ∀ i, Replaced (f (start + i)) (messageKeyAt es i) (messageKeyAt es' i) := by
  induction es generalizing start es' with
  | nil =>
    simp only [replaceKeys, except_pure_eq_ok]
    constructor
    · rintro rfl
      exact ⟨rfl, fun i => rfl⟩
    · rintro ⟨hclear, -⟩
      exact (List.map_eq_nil_iff.mp hclear).symm
  | cons e es ih =>
    simp only [replaceKeys, except_bind_eq_ok, except_pure_eq_ok]
    constructor
    · rintro ⟨key, hkey, rest, hrest, rfl⟩
      obtain ⟨hclear, hkeys⟩ := ih.mp hrest
      refine ⟨by rw [List.map_cons, List.map_cons, hclear], fun i => ?_⟩
      cases i with
      | zero => exact ⟨key, hkey, rfl⟩
      | succ i =>
        have hi := hkeys i
        rw [Nat.add_right_comm] at hi
        exact hi
    · rintro ⟨hclear, hkeys⟩
      cases es' with
      | nil => cases hclear
      | cons e' es' =>
        obtain ⟨hhead, htail⟩ := List.cons.inj hclear
        obtain ⟨hdhPub, hn⟩ := Prod.mk.inj hhead
        obtain ⟨key, hkey, hsome⟩ := hkeys 0
        have hkeyEq : e'.messageKey = key := Option.some.inj hsome
        refine ⟨key, hkey, es', ih.mpr ⟨htail, fun i => ?_⟩, ?_⟩
        · have hi := hkeys (i + 1)
          rw [← Nat.add_assoc, Nat.add_right_comm] at hi
          exact hi
        · cases e'
          cases hdhPub
          cases hn
          cases hkeyEq
          rfl

/-- Replacing the secrets of a row keeps its public fields and replaces each secret by what `f`
returns for it; and there is one such row. -/
theorem replaceSecrets_eq_ok {f : RatchetSecretField → Nat → Bytes → Except JsError Bytes}
    {s t : RatchetSession} :
    replaceSecrets f s = .ok t ↔ t.clear = s.clear ∧
      ∀ field index, Replaced (f field index) (s.secret field index) (t.secret field index) := by
  simp only [replaceSecrets, except_bind_eq_ok, except_pure_eq_ok, replaceOptional_eq_ok,
    replaceKeys_eq_ok, Nat.zero_add]
  constructor
  · rintro ⟨root, hroot, sending, hsending, receiving, hreceiving, self, hself, skipped,
      ⟨hclear, hskipped⟩, edge, hedge, rfl⟩
    have hpresent : ∀ {g : Bytes → Except JsError Bytes} {old new : Option Bytes},
        Replaced g old new → new.isSome = old.isSome := by
      intro g old new h
      cases old with
      | none => rw [show new = none from h]
      | some secret =>
        obtain ⟨secret', -, rfl⟩ := h
        rfl
    constructor
    · simp only [RatchetSession.clear, hclear, hpresent hsending, hpresent hreceiving,
        hpresent hedge]
    · intro field index
      cases field with
      | skippedMessageKey => exact hskipped index
      | rootKey =>
        cases index with
        | zero => exact ⟨root, hroot, rfl⟩
        | succ n => rfl
      | sendingChainKey =>
        cases index with
        | zero => exact hsending
        | succ n => rfl
      | receivingChainKey =>
        cases index with
        | zero => exact hreceiving
        | succ n => rfl
      | dhSelfSecret =>
        cases index with
        | zero => exact ⟨self, hself, rfl⟩
        | succ n => rfl
      | edgeCryptoState =>
        cases index with
        | zero => exact hedge
        | succ n => rfl
  · rintro ⟨hclear, hsecret⟩
    obtain ⟨root, hroot, hrootEq⟩ := hsecret .rootKey 0
    obtain ⟨self, hself, hselfEq⟩ := hsecret .dhSelfSecret 0
    refine ⟨root, hroot, t.sendingChainKey, hsecret .sendingChainKey 0, t.receivingChainKey,
      hsecret .receivingChainKey 0, self, hself, t.skippedMessageKeys,
      ⟨(ClearFields.mk.inj hclear).2.2.2.2.2.2.2.2.2.2.1, hsecret .skippedMessageKey⟩,
      t.edgeCryptoState, hsecret .edgeCryptoState 0, ?_⟩
    have hrootEq' : t.rootKey = root := Option.some.inj hrootEq
    have hselfEq' : t.dhSelfSec = self := Option.some.inj hselfEq
    obtain ⟨h1, h2, h3, h4, h5, h6, h7, h8, h9, h10, -⟩ := ClearFields.mk.inj hclear
    cases t
    simp only at hrootEq' hselfEq' h1 h2 h3 h4 h5 h6 h7 h8 h9 h10
    subst hrootEq' hselfEq' h1 h2 h3 h4 h5 h6 h7 h8 h9 h10
    rfl

theorem replaceKeys_isOk {f : Nat → Bytes → Except JsError Bytes} {start : Nat}
    {es : List SkippedMessageKey}
    (h : ∀ i key, messageKeyAt es i = some key → ∃ key', f (start + i) key = .ok key') :
    ∃ es', replaceKeys f start es = .ok es' := by
  induction es generalizing start with
  | nil => exact ⟨[], rfl⟩
  | cons e es ih =>
    obtain ⟨key, hkey⟩ := h 0 e.messageKey rfl
    obtain ⟨rest, hrest⟩ := @ih (start + 1) fun i key' hkey' => by
      rw [Nat.add_right_comm, Nat.add_assoc]
      exact h (i + 1) key' hkey'
    refine ⟨_, except_bind_eq_ok.mpr ⟨key, hkey, except_bind_eq_ok.mpr ⟨rest, hrest, rfl⟩⟩⟩

theorem replaceOptional_isOk {f : Bytes → Except JsError Bytes} {old : Option Bytes}
    (h : ∀ secret, old = some secret → ∃ secret', f secret = .ok secret') :
    ∃ new, replaceOptional f old = .ok new := by
  cases old with
  | none => exact ⟨none, rfl⟩
  | some secret =>
    obtain ⟨secret', hsecret⟩ := h secret rfl
    exact ⟨some secret', except_bind_eq_ok.mpr ⟨secret', hsecret, rfl⟩⟩

/-- Replacing the secrets fails only where `f` fails on one of them. -/
theorem replaceSecrets_isOk {f : RatchetSecretField → Nat → Bytes → Except JsError Bytes}
    {s : RatchetSession} (h : ∀ field index secret, s.secret field index = some secret →
      ∃ secret', f field index secret = .ok secret') : ∃ t, replaceSecrets f s = .ok t := by
  obtain ⟨root, hroot⟩ := h .rootKey 0 s.rootKey rfl
  obtain ⟨sending, hsending⟩ := replaceOptional_isOk fun p hp => h .sendingChainKey 0 p hp
  obtain ⟨receiving, hreceiving⟩ := replaceOptional_isOk fun p hp => h .receivingChainKey 0 p hp
  obtain ⟨self, hself⟩ := h .dhSelfSecret 0 s.dhSelfSec rfl
  obtain ⟨skipped, hskipped⟩ := @replaceKeys_isOk (f .skippedMessageKey) 0 s.skippedMessageKeys
    fun i key hkey => by
      rw [Nat.zero_add]
      exact h .skippedMessageKey i key hkey
  obtain ⟨edge, hedge⟩ := replaceOptional_isOk fun p hp => h .edgeCryptoState 0 p hp
  simp only [replaceSecrets, except_bind_eq_ok, except_pure_eq_ok]
  exact ⟨_, root, hroot, sending, hsending, receiving, hreceiving, self, hself, skipped, hskipped,
    edge, hedge, rfl⟩

end RatchetWrap

end P2Party
