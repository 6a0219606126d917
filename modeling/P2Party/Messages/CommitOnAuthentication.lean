import P2Party.Cryptography.RatchetSteps
import P2Party.Messages.MessageChunk

/-!
# A chunk is adopted exactly when it authenticates

`decryptMessageChunk` works on a clone of the ratchet: the clone is adopted, and its key
cached, exactly when the key was not cached, the epoch is known, the key could be derived
and the tag verified. Nothing else changes ratchet or cache, whatever the frame says.

- `Commits`: the conditions;
- `decryptMessageChunk_commit`, `decryptMessageChunk_keep`: the two outcomes;
- `afterChunk_changes_iff`: ratchet and cache change exactly under the conditions.
-/

namespace P2Party

open Base PqHealing

/-! ## The two outcomes -/

/-- The key a chunk is sealed under (messageChunkCrypto.ts:268-273, 402-404). -/
def chunkKey (L : LibCrypto) (messageKey : Bytes) (header : RatchetHeader)
    (pqContext : Option PqMessageKeyContext) : Except JsError Bytes :=
  match pqContext with
  | none => .ok messageKey
  | some context => combinePqMessageKey L messageKey context header

section Commits

variable (L : LibCrypto) (receiver : ChunkReceiver) (frame merkleRoot : Bytes)
  (resolver : Option PqMessageKeyContextResolver) (secretKey : Bytes)

/-- The key of a frame was not cached, its epoch was resolved, `ratchetDecrypt` returned a
key on the clone, and the tag verified under it. -/
structure Commits (parsed : ParsedChunkFrame) (cacheK : String) (key : Bytes) (clone : RatchetState) : Prop where
  rootLength : merkleRoot.length = HASH_BYTES
  parses : parseChunkFrameHeader frame = .ok parsed
  name : messageCacheKey parsed.header.dhPub parsed.header.N
    (if resolver.isSome then some parsed.pqEpoch else none) = .ok cacheK
  uncached : receiver.cache.get cacheK = none
  derives : ∃ pqContext messageKey,
    gateEpoch resolver parsed.pqEpoch receiver.state.rootSuite = some pqContext ∧
    (ratchetDecrypt L parsed.header secretKey).run (cloneRatchet receiver.state) = .ok messageKey clone ∧
    chunkKey L messageKey parsed.header pqContext = .ok key
  verifies : L.aeadOpen key (frameNonce frame) (frameAad merkleRoot frame) (frameCiphertext frame) ≠ none

/-- The receiver after a frame. -/
def afterChunk : ChunkReceiver :=
  finalState ((decryptMessageChunk L frame merkleRoot resolver secretKey).run receiver)

variable {L receiver frame merkleRoot resolver secretKey}

/-- The tag fails exactly when the C function says so. -/
theorem receiveWithKey_unverified {key : Bytes} :
    receiveWithKey L frame merkleRoot key = .error (-2) ↔
      L.aeadOpen key (frameNonce frame) (frameAad merkleRoot frame) (frameCiphertext frame) = none := by
  unfold receiveWithKey receiveMessageWithKey frameNonce frameAad frameCiphertext
  dsimp only
  constructor
  · intro h
    split at h
    · assumption
    · split at h
      · cases h
      · split at h
        · cases h
        · cases h
  · intro h
    rw [h]

theorem deriveMessageKey_eq_some {state clone : RatchetState} {header : RatchetHeader}
    {pqContext : Option PqMessageKeyContext} {key : Bytes} :
    deriveMessageKey L state header pqContext secretKey = some (key, clone) ↔
      ∃ messageKey, (ratchetDecrypt L header secretKey).run (cloneRatchet state) = .ok messageKey clone ∧
        chunkKey L messageKey header pqContext = .ok key := by
  unfold deriveMessageKey
  cases (ratchetDecrypt L header secretKey).run (cloneRatchet state) with
  | error e s => simp
  | ok messageKey s =>
    cases pqContext with
    | none => simp [chunkKey, and_comm]
    | some context =>
      cases hkey : combinePqMessageKey L messageKey context header with
      | error e => simp [chunkKey, hkey]
      | ok combined => simp [chunkKey, hkey, and_comm]

/-- There is at most one way to meet the conditions. -/
theorem Commits.unique {parsed parsed' : ParsedChunkFrame} {cacheK cacheK' : String} {key key' : Bytes}
    {clone clone' : RatchetState}
    (h : Commits L receiver frame merkleRoot resolver secretKey parsed cacheK key clone)
    (h' : Commits L receiver frame merkleRoot resolver secretKey parsed' cacheK' key' clone') :
    parsed' = parsed ∧ cacheK' = cacheK ∧ key' = key ∧ clone' = clone := by
  obtain rfl := Except.ok.inj (h'.parses.symm.trans h.parses)
  obtain rfl := Except.ok.inj (h'.name.symm.trans h.name)
  obtain ⟨pqContext, messageKey, hgate, hrun, hkey⟩ := h.derives
  obtain ⟨pqContext', messageKey', hgate', hrun', hkey'⟩ := h'.derives
  obtain rfl := Option.some.inj (hgate'.symm.trans hgate)
  obtain ⟨rfl, rfl⟩ := EStateM.Result.ok.inj (hrun'.symm.trans hrun)
  exact ⟨rfl, rfl, Except.ok.inj (hkey'.symm.trans hkey), rfl⟩

/-- A frame that meets the conditions is adopted, whether or not its proof leads to the root. -/
theorem decryptMessageChunk_commit {parsed : ParsedChunkFrame} {cacheK : String} {key : Bytes}
    {clone : RatchetState} (h : Commits L receiver frame merkleRoot resolver secretKey parsed cacheK key clone) :
    (decryptMessageChunk L frame merkleRoot resolver secretKey).run receiver =
      .ok (receivedChunk (receiveWithKey L frame merkleRoot key) true)
        ⟨clone, receiver.cache.set cacheK key⟩ := by
  obtain ⟨pqContext, messageKey, hgate, hrun, hkey⟩ := h.derives
  have hderive : deriveMessageKey L receiver.state parsed.header pqContext secretKey = some (key, clone) :=
    deriveMessageKey_eq_some.mpr ⟨messageKey, hrun, hkey⟩
  rw [decryptMessageChunk_miss h.rootLength h.parses hgate h.name h.uncached, hderive]
  dsimp only
  rw [if_neg fun hfail => h.verifies (receiveWithKey_unverified.mp hfail)]

/-- A frame that does not meet them changes nothing, and is dropped unless its key is cached. -/
theorem decryptMessageChunk_keep
    (h : ¬ ∃ parsed cacheK key clone,
      Commits L receiver frame merkleRoot resolver secretKey parsed cacheK key clone) :
    (∃ e, (decryptMessageChunk L frame merkleRoot resolver secretKey).run receiver = .error e receiver) ∨
      (decryptMessageChunk L frame merkleRoot resolver secretKey).run receiver = .ok droppedChunk receiver ∨
      ∃ parsed cacheK key, parseChunkFrameHeader frame = .ok parsed ∧
        messageCacheKey parsed.header.dhPub parsed.header.N
          (if resolver.isSome then some parsed.pqEpoch else none) = .ok cacheK ∧
        receiver.cache.get cacheK = some key ∧
        (decryptMessageChunk L frame merkleRoot resolver secretKey).run receiver =
          .ok (receivedChunk (receiveWithKey L frame merkleRoot key) false) receiver := by
  by_cases hroot : merkleRoot.length = HASH_BYTES
  case neg =>
    refine Or.inl ⟨.error "messageChunkCrypto: merkleRoot must be 64 bytes", ?_⟩
    unfold decryptMessageChunk
    rw [run_ensure_of_not hroot]
  cases hparse : parseChunkFrameHeader frame with
  | error e => exact Or.inl ⟨e, decryptMessageChunk_unparsed hroot hparse⟩
  | ok parsed =>
    cases hgate : gateEpoch resolver parsed.pqEpoch receiver.state.rootSuite with
    | none => exact Or.inr (Or.inl (decryptMessageChunk_unresolved hroot hparse hgate))
    | some pqContext =>
      cases hname : messageCacheKey parsed.header.dhPub parsed.header.N
          (if resolver.isSome then some parsed.pqEpoch else none) with
      | error e =>
        refine Or.inl ⟨e, ?_⟩
        unfold decryptMessageChunk
        rw [run_ensure_of hroot, run_attempt_of_ok hparse, run_get_bind, hgate]
        show (attempt _ >>= _).run receiver = _
        rw [run_attempt_of_error hname]
      | ok cacheK =>
        cases hcached : receiver.cache.get cacheK with
        | some cached =>
          exact Or.inr (Or.inr ⟨parsed, cacheK, cached, rfl, hname, hcached,
            decryptMessageChunk_hit hroot hparse hgate hname hcached⟩)
        | none =>
          refine Or.inr (Or.inl ?_)
          rw [decryptMessageChunk_miss hroot hparse hgate hname hcached]
          cases hderive : deriveMessageKey L receiver.state parsed.header pqContext secretKey with
          | none => rfl
          | some derived =>
            obtain ⟨key, clone⟩ := derived
            obtain ⟨messageKey, hrun, hkey⟩ := deriveMessageKey_eq_some.mp hderive
            dsimp only
            rw [if_pos]
            refine receiveWithKey_unverified.mpr (Decidable.not_not.mp fun hverifies => h ?_)
            exact ⟨parsed, cacheK, key, clone, hroot, hparse, hname, hcached,
              ⟨pqContext, messageKey, hgate, hrun, hkey⟩, hverifies⟩

theorem afterChunk_commit {parsed : ParsedChunkFrame} {cacheK : String} {key : Bytes}
    {clone : RatchetState} (h : Commits L receiver frame merkleRoot resolver secretKey parsed cacheK key clone) :
    afterChunk L receiver frame merkleRoot resolver secretKey = ⟨clone, receiver.cache.set cacheK key⟩ := by
  rw [afterChunk, decryptMessageChunk_commit h, finalState_ok]

theorem afterChunk_keep
    (h : ¬ ∃ parsed cacheK key clone,
      Commits L receiver frame merkleRoot resolver secretKey parsed cacheK key clone) :
    afterChunk L receiver frame merkleRoot resolver secretKey = receiver := by
  unfold afterChunk
  obtain ⟨e, hrun⟩ | hrun | ⟨_, _, _, -, -, -, hrun⟩ := decryptMessageChunk_keep h
  · rw [hrun, finalState_error]
  · rw [hrun, finalState_ok]
  · rw [hrun, finalState_ok]

/-- The state and the cache change, both, exactly under the conditions. -/
theorem afterChunk_changes_iff :
    ((afterChunk L receiver frame merkleRoot resolver secretKey).state ≠ receiver.state ↔
      ∃ parsed cacheK key clone,
        Commits L receiver frame merkleRoot resolver secretKey parsed cacheK key clone) ∧
    ((afterChunk L receiver frame merkleRoot resolver secretKey).cache ≠ receiver.cache ↔
      ∃ parsed cacheK key clone,
        Commits L receiver frame merkleRoot resolver secretKey parsed cacheK key clone) := by
  by_cases h : ∃ parsed cacheK key clone,
      Commits L receiver frame merkleRoot resolver secretKey parsed cacheK key clone
  · obtain ⟨parsed, cacheK, key, clone, hcommits⟩ := h
    have hexists : ∃ parsed cacheK key clone,
        Commits L receiver frame merkleRoot resolver secretKey parsed cacheK key clone :=
      ⟨parsed, cacheK, key, clone, hcommits⟩
    rw [afterChunk_commit hcommits]
    refine ⟨⟨fun _ => hexists, fun _ => ?_⟩, fun _ => hexists, fun _ hsame => ?_⟩
    · obtain ⟨_, _, _, hrun, _⟩ := hcommits.derives
      exact receive_ne (ratchetDecrypt_ok hrun)
    · have hget := OrdMap.get_set_self receiver.cache cacheK key
      rw [show receiver.cache.set cacheK key = receiver.cache from hsame, hcommits.uncached] at hget
      cases hget
  · rw [afterChunk_keep h]
    exact ⟨⟨fun hne => absurd rfl hne, fun hcommits => absurd hcommits h⟩,
      fun hne => absurd rfl hne, fun hcommits => absurd hcommits h⟩

/-- The new entry stands behind the old ones. -/
theorem cache_set_entries {parsed : ParsedChunkFrame} {cacheK : String} {key : Bytes}
    {clone : RatchetState} (h : Commits L receiver frame merkleRoot resolver secretKey parsed cacheK key clone) :
    (receiver.cache.set cacheK key).entries = receiver.cache.entries ++ [(cacheK, key)] :=
  OrdMap.set_entries_of_not_has key (OrdMap.get_eq_none_iff.mp h.uncached)

end Commits

end P2Party
