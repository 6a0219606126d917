import P2Party.Session.Run
import P2Party.Session.SealedMessage
import Mathlib.Data.List.Perm.Basic

/-!
# The round trip of a message

Two sessions are synchronised when their ratchets are in step, they are in the same PQ epoch and
neither holds a key of a message it has not read. A message that one of them encrypts is then
decrypted by the other, with its frames in any order: the first frame derives the key of the
message on a clone of the ratchet, and the others find it among the staged keys.

- `Synchronised`, `CanSend`: the two sessions, and space for one more message;
- `SealedAs.opens`, `joins`: opening the frames of a message, and joining its parts;
- `afterReading`, `ReadBack`: what the reader of a message has become;
- `Synchronised.roundTrip`: synchronised sessions agree on every message and stay synchronised.
-/

namespace P2Party

open Base PqHealing PqHealingRuntime

namespace Session

variable {L : LibCrypto}

/-! ## Opening the frames of a message -/

variable {plaintext key : Bytes} {header : RatchetHeader} {epoch : Nat} {nonce : Nat → Nonce}
  {message : EncryptedSessionMessage} {cell : Nat → Bytes}

/-- What a receiver records of chunk `i`. -/
def recordAt (L : LibCrypto) (plaintext : Bytes) (cell : Nat → Bytes) (i : Nat) : DecryptedRecord :=
  ⟨sessionMetadata (L.sha512 plaintext) plaintext.length i,
    (withReceipt L (cell i)).drop (METADATA_LEN + PROOF_LEN)⟩

/-- Frame `i` of a message. -/
def EncryptedSessionMessage.frameAt (L : LibCrypto) (message : EncryptedSessionMessage) (key : Bytes)
    (header : RatchetHeader) (epoch : Nat) (nonce : Nat → Nonce) (cell : Nat → Bytes) (i : Nat) : Bytes :=
  sealedChunk L key header epoch (cell i) message.root (nonce i)

namespace SealedAs

variable (h : SealedAs L plaintext header epoch key nonce message cell)
include h

theorem frames_eq : message.frames = (List.range (chunkCount plaintext.length)).map
    (message.frameAt L key header epoch nonce cell) := h.frames

theorem receives (haead : L.AeadLaws) {i : Nat} (hi : i < chunkCount plaintext.length) :
    receiveWithKey L (message.frameAt L key header epoch nonce cell i) message.root key =
      .ok (withReceipt L (cell i)) :=
  receive_sealedChunk haead h.fits (h.proves i hi)

theorem parses (i : Nat) : ∃ ciphertext,
    parseChunkFrameHeader (message.frameAt L key header epoch nonce cell i) =
      .ok ⟨header, epoch, (nonce i).val, ciphertext⟩ := ⟨_, parse_sealedChunk h.fits⟩

theorem length_frame {i : Nat} (hi : i < chunkCount plaintext.length) :
    (message.frameAt L key header epoch nonce cell i).length = WIRE_CHUNK_FRAME_LEN :=
  length_sealedChunk h.fits.dhPub (h.proves i hi).length

/-! ## Opening -/

/-- An opened frame is recorded, and the rest follows from the state it left. -/
theorem decryptFrames_cons {resolver : PqMessageKeyContextResolver} {secretKey : Nat → RandomBytes 32}
    {receiver receiver' receiver'' : ChunkReceiver} {i k : Nat} {rest : List (Bytes × Nat)}
    {records : List DecryptedRecord} {advanced : Bool} (hi : i < chunkCount plaintext.length)
    (hopen : (decryptMessageChunk L (message.frameAt L key header epoch nonce cell i) message.root
      (some resolver) (secretKey k).val).run receiver =
        .ok (receivedChunk (.ok (withReceipt L (cell i))) advanced) receiver')
    (hrest : (decryptFrames L resolver message.root secretKey rest).run receiver' = .ok records receiver'') :
    (decryptFrames L resolver message.root secretKey
        ((message.frameAt L key header epoch nonce cell i, k) :: rest)).run receiver =
      .ok (recordAt L plaintext cell i :: records) receiver'' := by
  rw [decryptFrames, run_bind_of_ok hopen]
  dsimp only [receivedChunk]
  rw [run_attempt_of_ok (h.metadata i hi), run_bind_of_ok hrest]
  rfl

/-- Frames whose key is staged are recorded and change nothing. -/
theorem decryptFrames_cached (haead : L.AeadLaws) {resolver : PqMessageKeyContextResolver}
    {secretKey : Nat → RandomBytes 32} {receiver : ChunkReceiver} {pqContext : Option PqMessageKeyContext}
    (hgate : gateEpoch (some resolver) epoch receiver.state.rootSuite = some pqContext)
    (hcached : receiver.cache.get (cacheKey header.dhPub header.N epoch) = some key)
    (is : List Nat) (k : Nat) (his : ∀ i ∈ is, i < chunkCount plaintext.length) :
    (decryptFrames L resolver message.root secretKey
        ((is.map (message.frameAt L key header epoch nonce cell)).zipIdx k)).run receiver =
      .ok (is.map (recordAt L plaintext cell)) receiver := by
  induction is generalizing k with
  | nil => rfl
  | cons i is ih =>
    have hi : i < chunkCount plaintext.length := his i List.mem_cons_self
    obtain ⟨ciphertext, hparse⟩ := h.parses i
    have hhit := @decryptMessageChunk_hit L message.root key (secretKey k).val _ (some resolver) _ receiver
      pqContext _ h.rootLength hparse hgate (messageCacheKey_eq h.fits.epoch) hcached
    rw [h.receives haead hi] at hhit
    rw [List.map_cons, List.zipIdx_cons]
    exact h.decryptFrames_cons hi hhit (ih (k + 1) fun j hj => his j (List.mem_cons_of_mem i hj))

/-- The first frame derives the key of the message, and the others use it. -/
theorem decryptFrames_new (haead : L.AeadLaws) {resolver : PqMessageKeyContextResolver}
    {secretKey : Nat → RandomBytes 32} {receiver : ChunkReceiver} {pqContext : Option PqMessageKeyContext}
    {clone : RatchetState} (hgate : gateEpoch (some resolver) epoch receiver.state.rootSuite = some pqContext)
    (hsuite : clone.rootSuite = receiver.state.rootSuite)
    (hcached : receiver.cache.get (cacheKey header.dhPub header.N epoch) = none)
    (hderive : deriveMessageKey L receiver.state header pqContext (secretKey 0).val = some (key, clone))
    {is : List Nat} (hne : is ≠ []) (his : ∀ i ∈ is, i < chunkCount plaintext.length) :
    (decryptFrames L resolver message.root secretKey
        (is.map (message.frameAt L key header epoch nonce cell)).zipIdx).run receiver =
      .ok (is.map (recordAt L plaintext cell))
        ⟨clone, receiver.cache.set (cacheKey header.dhPub header.N epoch) key⟩ := by
  cases is with
  | nil => exact absurd rfl hne
  | cons i is =>
    have hi : i < chunkCount plaintext.length := his i List.mem_cons_self
    obtain ⟨ciphertext, hparse⟩ := h.parses i
    have hmiss := @decryptMessageChunk_miss L message.root (secretKey 0).val _ (some resolver) _ receiver
      pqContext _ h.rootLength hparse hgate (messageCacheKey_eq h.fits.epoch) hcached
    rw [hderive] at hmiss
    dsimp only at hmiss
    rw [h.receives haead hi, if_neg (by rintro ⟨⟩)] at hmiss
    rw [List.map_cons, List.zipIdx_cons]
    have hgate' : gateEpoch (some resolver) epoch clone.rootSuite = some pqContext := by
      rw [hsuite, hgate]
    exact h.decryptFrames_cons hi hmiss (h.decryptFrames_cached haead hgate' (OrdMap.get_set_self _ _ _) is 1
      fun j hj => his j (List.mem_cons_of_mem i hj))

end SealedAs

/-! ## Joining the parts of a message -/

/-- The metadata a sender writes for an index passes every check of the joiner. -/
theorem validateRecord_ok (hsize : plaintext.length ≤ MAX_SAFE_INTEGER) {i : Nat}
    (hi : i < chunkCount plaintext.length) {byIndex : OrdMap Nat DecryptedRecord}
    (hnew : byIndex.get i = none) {first : Nat} :
    validateRecord (recordAt L plaintext cell first).metadata (chunkCount plaintext.length) byIndex
      (recordAt L plaintext cell i) = .ok (byIndex.set i (recordAt L plaintext cell i)) := by
  have hindex : i ≤ MAX_SAFE_INTEGER := by
    have hcount := chunkCount_le hsize
    have hbound : 2 ^ 48 ≤ MAX_SAFE_INTEGER := by decide
    omega
  have huseful : usefulLength plaintext.length i ≤ MAX_SAFE_INTEGER :=
    Nat.le_trans (Nat.min_le_left _ _) (by decide)
  have habsent : byIndex.has i = false := by
    rw [← Bool.not_eq_true]
    exact fun hhas => OrdMap.get_eq_none_iff.mp hnew (OrdMap.has_iff.mp hhas)
  unfold validateRecord requireSafeUint
  simp only [except_bind_eq_ok, demand_eq_ok, exists_const, except_pure_eq_ok]
  exact ⟨hindex, Nat.zero_le _, huseful, hsize, ⟨rfl, rfl, rfl, rfl⟩, ⟨rfl, rfl⟩, ⟨hi, rfl⟩, rfl, habsent, rfl⟩

/-- The records of distinct chunks are all filed under their indices. -/
theorem foldlM_validateRecord (hsize : plaintext.length ≤ MAX_SAFE_INTEGER) {first : Nat} {is : List Nat}
    {byIndex : OrdMap Nat DecryptedRecord} (his : ∀ i ∈ is, i < chunkCount plaintext.length)
    (hnodup : is.Nodup) (hnew : ∀ i ∈ is, byIndex.get i = none) :
    ∃ byIndex', (is.map (recordAt L plaintext cell)).foldlM
        (validateRecord (recordAt L plaintext cell first).metadata (chunkCount plaintext.length)) byIndex =
          .ok byIndex' ∧
      ∀ i, byIndex'.get i = if i ∈ is then some (recordAt L plaintext cell i) else byIndex.get i := by
  induction is generalizing byIndex with
  | nil => exact ⟨byIndex, rfl, fun i => (if_neg (List.not_mem_nil)).symm⟩
  | cons i is ih =>
    obtain ⟨hfresh, hnodup⟩ := List.nodup_cons.mp hnodup
    have hi := his i List.mem_cons_self
    have hfiled := @validateRecord_ok L plaintext cell hsize i hi byIndex (hnew i List.mem_cons_self) first
    have hrest : ∀ j ∈ is, (byIndex.set i (recordAt L plaintext cell i)).get j = none := by
      intro j hj
      have hne : j ≠ i := fun hji => hfresh (by rw [← hji]; exact hj)
      rw [OrdMap.get_set_ne _ _ hne]
      exact hnew j (List.mem_cons_of_mem i hj)
    obtain ⟨byIndex', hfold, hget⟩ := ih (fun j hj => his j (List.mem_cons_of_mem i hj)) hnodup hrest
    refine ⟨byIndex', ?_, fun j => ?_⟩
    · rw [List.map_cons, List.foldlM_cons, hfiled, ok_bind, hfold]
    · rw [hget j]
      by_cases hj : j ∈ is
      · rw [if_pos hj, if_pos (List.mem_cons_of_mem i hj)]
      · rw [if_neg hj, OrdMap.get_set]
        by_cases hji : j = i
        · rw [if_pos hji, if_pos (hji ▸ List.mem_cons_self), hji]
        · rw [if_neg hji, if_neg fun hmem => (List.mem_cons.mp hmem).elim hji hj]

/-- The records of all chunks, in any order, join to the plaintext. -/
theorem joins (hsize : plaintext.length ≤ MAX_SAFE_INTEGER) {root : Bytes}
    (hcells : Prepared L plaintext root cell) {is : List Nat}
    (hperm : is.Perm (List.range (chunkCount plaintext.length))) :
    validateAndJoinRecords L (is.map (recordAt L plaintext cell)) = .ok plaintext := by
  have hmem : ∀ i, i ∈ is ↔ i < chunkCount plaintext.length := fun i => by
    rw [hperm.mem_iff, List.mem_range]
  have hlength : is.length = chunkCount plaintext.length := by
    rw [hperm.length_eq, List.length_range]
  obtain ⟨first, rest, rfl⟩ : ∃ first rest, is = first :: rest :=
    List.exists_cons_of_length_pos (hlength ▸ chunkCount_pos _)
  obtain ⟨byIndex, hfold, hget⟩ := @foldlM_validateRecord L plaintext cell hsize first _ OrdMap.empty
    (fun i hi => (hmem i).mp hi) (hperm.nodup_iff.mpr List.nodup_range) fun i _ => rfl
  have hparts : (List.range (chunkCount plaintext.length)).mapM (recordBytes byIndex) =
      .ok ((List.range (chunkCount plaintext.length)).map (partAt plaintext)) := by
    refine mapM_ok fun i hi => ?_
    have hi := List.mem_range.mp hi
    unfold recordBytes
    rw [hget i, if_pos ((hmem i).mpr hi)]
    exact congrArg _ (hcells.part i hi)
  have hhash : L.sha512 ((List.range (chunkCount plaintext.length)).map (partAt plaintext)).flatten =
      L.sha512 plaintext := by
    rw [flatten_parts]
  have hcount : ((recordAt L plaintext cell first) :: rest.map (recordAt L plaintext cell)).length =
      chunkCount plaintext.length := by
    rw [List.length_cons, List.length_map, ← hlength, List.length_cons]
  rw [List.map_cons] at hfold ⊢
  unfold validateAndJoinRecords requireSafeUint
  simp only [except_bind_eq_ok, demand_eq_ok, exists_const, except_pure_eq_ok]
  exact ⟨hsize, hcount, byIndex, hfold, _, hparts, hhash, flatten_parts plaintext⟩

/-! ## Decrypting a message -/

/-- No two chunks of a message have one nonce. -/
def NoncesDistinct (plaintext : Bytes) (nonce : Nat → Nonce) : Prop :=
  ∀ i < chunkCount plaintext.length, ∀ j < chunkCount plaintext.length, nonce i = nonce j → i = j

variable {r : Session} {frames : List Bytes} {secretKey : Nat → RandomBytes 32}

/-- The frames of a message in some order are the frames at a rearrangement of the indices. -/
theorem SealedAs.arranged (h : SealedAs L plaintext header epoch key nonce message cell)
    (hperm : frames.Perm message.frames) :
    ∃ is : List Nat, is.Perm (List.range (chunkCount plaintext.length)) ∧
      frames = is.map (message.frameAt L key header epoch nonce cell) := by
  rw [h.frames_eq] at hperm
  have hcomp := congrFun (congrFun (List.eq_map_comp_perm (message.frameAt L key header epoch nonce cell))
    frames) (List.range (chunkCount plaintext.length))
  obtain ⟨is, hframes, his⟩ := hcomp.mpr hperm
  exact ⟨is, his, hframes⟩

/-- A message passes the checks that need no key, with its frames in any order. -/
theorem SealedAs.checks (h : SealedAs L plaintext header epoch key nonce message cell)
    (hperm : frames.Perm message.frames) : checkMessage { message with frames } = .ok () := by
  have hne : frames ≠ [] := by
    intro hnil
    have hlength := hperm.length_eq
    rw [hnil, h.frames_eq, List.length_map, List.length_range] at hlength
    have hpos := chunkCount_pos plaintext.length
    rw [← hlength] at hpos
    exact absurd hpos (Nat.lt_irrefl 0)
  have hlengths : ∀ frame ∈ frames, frame.length = WIRE_CHUNK_FRAME_LEN := by
    intro frame hframe
    have hmem := hperm.mem_iff.mp hframe
    rw [h.frames_eq] at hmem
    obtain ⟨i, hi, rfl⟩ := List.mem_map.mp hmem
    exact h.length_frame (List.mem_range.mp hi)
  unfold checkMessage requireBytes
  simp only [except_bind_eq_ok, demand_eq_ok, exists_const]
  exact ⟨h.version, h.rootLength, hne, hlengths⟩

/-- Its headers are one header and its nonces are distinct. -/
theorem SealedAs.headers (h : SealedAs L plaintext header epoch key nonce message cell)
    (hnonces : NoncesDistinct plaintext nonce) {is : List Nat} (hnodup : is.Nodup)
    (his : ∀ i ∈ is, i < chunkCount plaintext.length) :
    ∃ parsed, (is.map (message.frameAt L key header epoch nonce cell)).mapM parseChunkFrameHeader = .ok parsed ∧
      checkHeaders parsed = .ok () := by
  choose ciphertext hparse using h.parses
  let parsedAt : Nat → ParsedChunkFrame := fun i => ⟨header, epoch, (nonce i).val, ciphertext i⟩
  have hall : (is.map (message.frameAt L key header epoch nonce cell)).mapM parseChunkFrameHeader =
      .ok (is.map parsedAt) := by
    rw [List.mapM_map]
    exact mapM_ok fun i _ => hparse i
  refine ⟨is.map parsedAt, hall, ?_⟩
  have hsame : sameRatchetHeader header header = true := by
    unfold sameRatchetHeader
    simp only [BEq.rfl, Bool.and_self]
  have hheaders : ∀ p ∈ is.map parsedAt, ∀ q ∈ (is.map parsedAt).head?,
      sameRatchetHeader q.header p.header = true := by
    intro p hp q hq
    obtain ⟨i, -, rfl⟩ := List.mem_map.mp hp
    obtain ⟨j, -, rfl⟩ := List.mem_map.mp (List.mem_of_mem_head? hq)
    exact hsame
  have hdistinct : ((is.map parsedAt).map (·.nonce)).Nodup := by
    rw [List.map_map]
    refine List.Nodup.map_on (fun i hi j hj hij => ?_) hnodup
    exact hnonces i (his i hi) j (his j hj) (Subtype.ext hij)
  unfold checkHeaders
  simp only [except_bind_eq_ok, demand_eq_ok, exists_const]
  exact ⟨hheaders, hdistinct⟩

/-- A session knows its own epoch. -/
theorem WellFormed.gate (hr : r.WellFormed) : gateEpoch (some r.resolver) r.epoch r.state.rootSuite =
    some (some r.pq.currentMessageContext) := by
  have hresolved : r.resolver r.epoch = .ok (some r.pq.currentMessageContext) :=
    congrArg Except.ok (if_pos rfl)
  have hmatches : resolvedContextMatches r.pq.currentMessageContext r.epoch r.state.rootSuite = true := by
    unfold resolvedContextMatches
    rw [hr.context.1, hr.context.2.1, ← hr.suite]
    simp [Session.epoch, SparsePqHealingState.currentMessageContext]
  unfold gateEpoch
  simp only [hresolved, hmatches, if_true]

/-- A message opens on a session whose ratchet has its key, in any order. -/
theorem SealedAs.opens (h : SealedAs L plaintext header epoch key nonce message cell) (haead : L.AeadLaws)
    (hr : r.WellFormed) (hsize : plaintext.length ≤ MAX_SAFE_INTEGER)
    (hnonces : NoncesDistinct plaintext nonce) (hepoch : epoch = r.epoch)
    (hunread : r.pq.activeReceiveKeys.get (cacheKey header.dhPub header.N epoch) = none)
    {messageKey : Bytes} {reader' : RatchetState} (hsuite : reader'.rootSuite = r.state.rootSuite)
    (hread : (ratchetDecrypt L header (secretKey 0).val).run r.state = .ok messageKey reader')
    (hkey : combinePqMessageKey L messageKey r.pq.currentMessageContext header = .ok key)
    (hperm : frames.Perm message.frames) :
    openMessage L r { message with frames } secretKey =
      .ok (plaintext, ⟨reader', r.pq.activeReceiveKeys.set (cacheKey header.dhPub header.N epoch) key⟩) := by
  obtain ⟨is, his, rfl⟩ := h.arranged hperm
  have hbound : ∀ i ∈ is, i < chunkCount plaintext.length := fun i hi =>
    List.mem_range.mp (his.mem_iff.mp hi)
  have hne : is ≠ [] := by
    intro hnil
    have hlength := his.length_eq
    have hpos := chunkCount_pos plaintext.length
    rw [hnil, List.length_range] at hlength
    rw [← hlength] at hpos
    exact absurd hpos (Nat.lt_irrefl 0)
  have hgate := hr.gate
  rw [← hepoch] at hgate
  have hderive : deriveMessageKey L r.state header (some r.pq.currentMessageContext) (secretKey 0).val =
      some (key, reader') := by
    unfold deriveMessageKey
    rw [cloneRatchet_eq hr.ratchet.canonical, hread]
    dsimp only
    rw [hkey]
  obtain ⟨parsed, hparsed, hheaders⟩ := h.headers hnonces (his.nodup_iff.mpr List.nodup_range) hbound
  have hframes := @SealedAs.decryptFrames_new L plaintext key header epoch nonce message cell h haead r.resolver
    secretKey ⟨r.state, r.pq.activeReceiveKeys⟩ _ reader' hgate hsuite hunread hderive is hne hbound
  unfold openMessage
  rw [hparsed, ok_bind, hheaders, ok_bind, cloneRatchet_eq hr.ratchet.canonical, hframes]
  dsimp only
  rw [joins hsize h.toPrepared his]
  rfl

/-! ## Synchronised sessions -/

/-- A reader holds no key of a message that the writer has still to send. -/
def NoneAhead (writer reader : Session) : Prop :=
  ∀ N epoch, writer.state.Ns ≤ N →
    reader.pq.activeReceiveKeys.get (cacheKey writer.state.dhSelfPub N epoch) = none

/-- Two live sessions with their ratchets in step, in one PQ epoch under one root, with no healing
in progress and no key of a message that was not sent. -/
structure Synchronised (L : LibCrypto) (a b : Session) : Prop where
  left : a.WellFormed
  right : b.WellFormed
  inStep : InStep L a.state b.state
  context : a.pq.currentMessageContext = b.pq.currentMessageContext
  leftFree : a.pq.trafficBlocked = false
  rightFree : b.pq.trafficBlocked = false
  leftUnread : NoneAhead b a
  rightUnread : NoneAhead a b

/-- The application-message counter is not at its end. -/
def CanCount (s : Session) : Prop := s.pq.messagesSinceHealing < MAX_SAFE_INTEGER

/-- Every counter of a session has room for one more message. -/
structure CanSend (s : Session) : Prop where
  Ns : s.state.Ns ≤ MAX_SAFE_INTEGER
  PN : s.state.PN ≤ MAX_SAFE_INTEGER
  count : s.CanCount

/-- A DH key that a session has not come across. -/
structure UnseenBy (pub : Bytes) (s : Session) : Prop where
  ratchet : Unseen pub s.state
  keys : ∀ N epoch, s.pq.activeReceiveKeys.get (cacheKey pub N epoch) = none

/-- A message of synchronised sessions: its reader has taken one step in the writer's chain and
counted it. -/
structure ReadBack (L : LibCrypto) (s s' r r' : Session) (secretKey : Bytes) : Prop where
  ratchet : RatchetRead L secretKey s'.state r.state r'.state
  counted : r'.pq.messagesSinceHealing = r.pq.messagesSinceHealing + 1
  synchronised : (r.state.dhRemotePub ≠ some s.state.dhSelfPub → UnseenBy (L.x25519Base secretKey) s) →
    Synchronised L s' r'

variable {s : Session} {ρ : EncryptRandomness}

/-- A session that has read a message under a key. -/
def afterReading (r : Session) (reader : RatchetState) (name : String) (key : Bytes) : Session :=
  r.adopted reader (adoptActiveReceiveKeys r.pq.activeReceiveKeys (r.pq.activeReceiveKeys.set name key))

/-- What a message leaves of two synchronised sessions. -/
theorem Synchronised.after (h : Synchronised L s r) {next reader' : RatchetState} {messageKey key : Bytes}
    {epoch : Nat} {secretKey : Bytes} (hsent : RatchetSent L s.state next messageKey)
    (hread : RatchetRead L secretKey next r.state reader')
    (hturn : (r.state.dhRemotePub ≠ some s.state.dhSelfPub → Unseen (L.x25519Base secretKey) s.state) →
      InStep L next reader')
    (hleft : (s.adopted next s.pq.activeReceiveKeys).WellFormed)
    (hright : (r.afterReading reader' (cacheKey s.state.dhSelfPub s.state.Ns epoch) key).WellFormed) :
    ReadBack L s (s.adopted next s.pq.activeReceiveKeys) r
      (r.afterReading reader' (cacheKey s.state.dhSelfPub s.state.Ns epoch) key) secretKey := by
  refine ⟨hread, rfl, fun hfresh => ?_⟩
  obtain ⟨chainKey, -, -, rfl⟩ := hsent.step
  refine ⟨hleft, hright, hturn fun hne => (hfresh hne).ratchet, h.context, h.leftFree, h.rightFree, ?_, ?_⟩
  · intro N epoch' hN
    show s.pq.activeReceiveKeys.get (cacheKey reader'.dhSelfPub N epoch') = none
    rcases hread.steps with ⟨-, -, hpub, hNs⟩ | ⟨hne, -, hpub, -⟩
    · rw [hpub]
      exact h.leftUnread N epoch' (hNs ▸ hN)
    · rw [hpub]
      exact (hfresh hne).keys N epoch'
  · intro N epoch' hN
    have hlater : s.state.Ns + 1 ≤ N := hN
    have hother : cacheKey s.state.dhSelfPub N epoch' ≠ cacheKey s.state.dhSelfPub s.state.Ns epoch := by
      intro hsame
      have hindex := (cacheKey_inj.mp hsame).2.1
      omega
    have hold := h.rightUnread N epoch' (Nat.le_of_succ_le hlater)
    show (adoptActiveReceiveKeys _ _).get (cacheKey s.state.dhSelfPub N epoch') = none
    rw [adoptActiveReceiveKeys, OrdMap.get_merge, hold, OrdMap.get_set_ne _ _ hother, hold]
    rfl

/-- A session with a sending chain and room in its counters encrypts, with one step of its ratchet. -/
theorem WellFormed.encrypts (h : s.WellFormed) (hfree : s.pq.trafficBlocked = false) (hsend : s.CanSend)
    (hsize : plaintext.length ≤ MAX_SAFE_INTEGER) {next : RatchetState} {messageKey : Bytes}
    (hsent : RatchetSent L s.state next messageKey) (ρ : EncryptRandomness) : ∃ message cell,
      (encrypt L plaintext ρ).run s = .ok message (s.adopted next s.pq.activeReceiveKeys) ∧
      SealedAs L plaintext s.state.header s.epoch (s.combined L messageKey) ρ.nonce message cell := by
  have hfits : HeaderFits s.state.header s.epoch :=
    ⟨h.ratchet.dhSelfPub, hsend.Ns, hsend.PN, h.context.2.2⟩
  obtain ⟨message, cell, hseal, hsealed⟩ := sealMessage_eq h hsize hfits hsent ρ
  obtain ⟨chainKey, hchain, -⟩ := hsent.step
  have hrun := encrypt_run h.live hfree (by rw [hchain]; rfl) hseal
  rw [if_pos (show s.pq.messagesSinceHealing < MAX_SAFE_INTEGER from hsend.count)] at hrun
  exact ⟨message, cell, hrun, hsealed⟩

/-- What synchronised sessions are after a message. -/
theorem Synchronised.exchange (h : Synchronised L s r) (haead : L.AeadLaws) (hdh : L.DhLaws)
    (hsize : plaintext.length ≤ MAX_SAFE_INTEGER) (hnonces : NoncesDistinct plaintext ρ.nonce)
    (hsend : s.CanSend) (hcount : r.CanCount) :
    ∃ message messageKey next, RatchetSent L s.state next messageKey ∧
      (encrypt L plaintext ρ).run s = .ok message (s.adopted next s.pq.activeReceiveKeys) ∧
      ∀ frames, frames.Perm message.frames → ∀ secretKey, ∃ reader name key,
        (decrypt L { message with frames } secretKey).run r =
          .ok plaintext (r.afterReading reader name key) ∧
        ReadBack L s (s.adopted next s.pq.activeReceiveKeys) r (r.afterReading reader name key)
          (secretKey 0).val := by
  obtain ⟨messageKey, next, hsent, -, hturn⟩ := h.inStep.turn hdh h.right.ratchet.size
  obtain ⟨message, cell, hencrypt, hsealed⟩ := h.left.encrypts h.leftFree hsend hsize hsent ρ
  have hkeyLength : messageKey.length = 32 := by
    obtain ⟨chainKey, -, rfl, -⟩ := hsent.step
    exact (length_kdfCk chainKey).2
  have hleft := encrypt_kept (L := L) h.left plaintext ρ
  rw [hencrypt] at hleft
  refine ⟨message, messageKey, next, hsent, hencrypt, fun frames hperm secretKey => ?_⟩
  obtain ⟨reader', hdecrypts, hread, hstay⟩ := hturn (secretKey 0).val
  have hepoch : s.epoch = r.epoch := congrArg PqMessageKeyContext.epoch h.context
  have hcombine := combine_eq (L := L) h.left hsealed.fits hkeyLength
  rw [h.context] at hcombine
  have hopen := hsealed.opens haead h.right hsize hnonces hepoch (h.rightUnread _ _ (Nat.le_refl _)) hread.suite
    hdecrypts hcombine hperm
  have hdecrypt := decrypt_run (hsealed.checks hperm) h.right.live hopen
  rw [if_pos (show r.pq.messagesSinceHealing < MAX_SAFE_INTEGER from hcount)] at hdecrypt
  have hright := decrypt_kept (L := L) h.right { message with frames } secretKey
  rw [hdecrypt] at hright
  exact ⟨reader', _, _, hdecrypt, h.after hsent hread hstay hleft.1 hright.1⟩

/-- Synchronised sessions agree on every message: its frames, in any order, decrypt to the
plaintext, both ratchets take one step, and the sessions stay synchronised when a DH key the reader
generates is new to the writer. -/
theorem Synchronised.roundTrip (h : Synchronised L s r) (haead : L.AeadLaws) (hdh : L.DhLaws)
    (hsize : plaintext.length ≤ MAX_SAFE_INTEGER) (hnonces : NoncesDistinct plaintext ρ.nonce)
    (hsend : s.CanSend) (hcount : r.CanCount) :
    ∃ message messageKey s', (encrypt L plaintext ρ).run s = .ok message s' ∧
      RatchetSent L s.state s'.state messageKey ∧
      s'.pq.messagesSinceHealing = s.pq.messagesSinceHealing + 1 ∧
      ∀ frames, frames.Perm message.frames → ∀ secretKey, ∃ r',
        (decrypt L { message with frames } secretKey).run r = .ok plaintext r' ∧
        ReadBack L s s' r r' (secretKey 0).val := by
  obtain ⟨message, messageKey, next, hsent, hencrypt, hreads⟩ :=
    h.exchange haead hdh hsize hnonces hsend hcount
  refine ⟨message, messageKey, _, hencrypt, hsent, rfl, fun frames hperm secretKey => ?_⟩
  obtain ⟨reader, name, key, hdecrypt, hback⟩ := hreads frames hperm secretKey
  exact ⟨_, hdecrypt, hback⟩

end Session

end P2Party
