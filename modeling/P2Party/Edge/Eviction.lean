import P2Party.Edge.ReceiveKeys

/-!
# What a frame evicts

`handleReceiveMessage` bounds the cache of receive keys before it knows what the frame is: the
loop over the oldest keys runs whenever 256 of them are cached, and the lookup, the
authentication and the write come later, under the lock. So the key of another message goes
also for a frame whose own key is cached, and for one that opens under no key.

- `Removes`: a key that a call takes out of the cache;
- `Begins`, `Authenticates`: whether a frame is of a message without a key in the cache, and
  whether it opens in the state in which the call gets the lock;
- `removes_iff`, `exists_removes_iff`: what is taken out, and when;
- `eviction_minimal`: when only an authentic first frame takes a key out.
-/

namespace P2Party

open Base PqHealing PqHealingOrchestrator

namespace EdgeCrypto

/-! ## A call of `handleReceiveMessage` -/

/-- The key under which a frame's message is cached (handleReceiveMessage.ts:125-137). -/
def frameKey (s : Live) (frame : Bytes) : Except JsError String := do
  let parsed ← parseChunkFrameHeader frame
  messageCacheKey parsed.header.dhPub parsed.header.N (if s.pq.isSome then some parsed.pqEpoch else none)

/-- The key of the frame's message is not in the cache. -/
def Begins (s : Live) (frame : Bytes) : Prop :=
  ∀ k, frameKey s frame = .ok k → (s.map s.cache).has k = false

/-- The call takes a key out of the cache it reads. -/
def Removes (s : EdgeCrypto) (frame merkleRoot secretKey : Bytes) (k : String) : Prop :=
  (s.map s.cache).has k = true ∧ ((s.receive frame merkleRoot secretKey).map s.cache).has k = false

/-- The frame opens as the first of its message: the ratchet advances on the clone. -/
def Authenticates (L : LibCrypto) (s : Live) (cache : Nat) (frame merkleRoot secretKey : Bytes) : Prop :=
  ∃ staged, stageDecrypt L s cache frame merkleRoot secretKey = .ok (.inl staged)

/-- The keys of every map are still there. -/
def KeepsKeys (s s' : Live) : Prop := ∀ index k, (s.map index).has k = true → (s'.map index).has k = true

variable {L : LibCrypto}

/-! ## What the loop takes out -/

theorem has_foldl_delete (evicted : List String) (keys : KeyMap) (k : String) :
    (evicted.foldl OrdMap.delete keys).has k = true ↔ keys.has k = true ∧ k ∉ evicted := by
  induction evicted generalizing keys with
  | nil => exact ⟨fun h => ⟨h, List.not_mem_nil⟩, fun h => h.1⟩
  | cons e evicted ih =>
    have hdelete : (keys.delete e).has k = true ↔ keys.has k = true ∧ k ≠ e := by
      rw [OrdMap.has_iff, OrdMap.has_iff, OrdMap.mem_keys_iff, OrdMap.mem_keys_iff]
      constructor
      · rintro ⟨v, hv⟩
        obtain ⟨hmem, hne⟩ := OrdMap.mem_delete_entries.mp hv
        exact ⟨⟨v, hmem⟩, hne⟩
      · rintro ⟨⟨v, hv⟩, hne⟩
        exact ⟨v, OrdMap.mem_delete_entries.mpr ⟨hv, hne⟩⟩
    rw [List.foldl_cons, ih, hdelete, List.mem_cons, not_or, and_assoc]

/-- Changing a map object changes what is read of it, if there is such an object. -/
theorem map_setMap (s : Live) (cache index : Nat) (keys : KeyMap) :
    (s.setMap cache keys).map index = if index = cache ∧ cache < s.maps.length then keys else s.map index := by
  unfold Live.map Live.setMap
  rw [List.getD_eq_getElem?_getD, List.getD_eq_getElem?_getD]
  by_cases hindex : index = cache
  · subst hindex
    by_cases hbound : index < s.maps.length
    · rw [if_pos ⟨rfl, hbound⟩, List.getElem?_set_self hbound, Option.getD_some]
    · rw [if_neg fun h => hbound h.2, List.set_eq_of_length_le (Nat.not_lt.mp hbound)]
  · rw [if_neg fun h => hindex h.1, List.getElem?_set_ne (Ne.symm hindex)]

/-- The cache after the loop. -/
theorem map_evict (s : EdgeCrypto) :
    s.evict.map s.cache = (evictions (s.map s.cache)).foldl OrdMap.delete (s.map s.cache) := by
  have hread : s.evict.map s.cache =
      (s.setMap s.cache ((evictions (s.map s.cache)).foldl OrdMap.delete (s.map s.cache))).map s.cache := rfl
  rw [hread, map_setMap]
  by_cases hcache : s.cache < s.maps.length
  · rw [if_pos ⟨rfl, hcache⟩]
  · -- there is no such map: it reads as empty, and nothing is evicted
    have hnone : s.map s.cache = .empty := by
      unfold Live.map
      rw [List.getD_eq_getElem?_getD, List.getElem?_eq_none (Nat.not_lt.mp hcache), Option.getD_none]
    have hempty : evictions .empty = [] := List.take_nil
    rw [if_neg fun h => hcache h.2, hnone, hempty, List.foldl_nil]

theorem mem_evictions_has {keys : KeyMap} {k : String} (h : k ∈ evictions keys) : keys.has k = true :=
  OrdMap.has_iff.mpr (List.mem_of_mem_take h)

/-- The loop runs when the cache is full. -/
theorem evictions_ne_nil_iff (keys : KeyMap) :
    evictions keys ≠ [] ↔ MESSAGE_KEY_CACHE_MAX ≤ keys.size := by
  have hlength : keys.keys.length = keys.size := List.length_map ..
  have htaken : (evictions keys).length = min (keys.size + 1 - MESSAGE_KEY_CACHE_MAX) keys.size := by
    unfold evictions
    rw [List.length_take, hlength]
  rw [← List.length_pos_iff, htaken]
  simp only [MESSAGE_KEY_CACHE_MAX]
  omega

/-- What a call takes out. -/
theorem removes_iff {s : EdgeCrypto} {frame merkleRoot secretKey : Bytes} {k : String} :
    Removes s frame merkleRoot secretKey k ↔
      (∃ parsed, parseChunkFrameHeader frame = .ok parsed) ∧ k ∈ evictions (s.map s.cache) := by
  unfold Removes EdgeCrypto.receive
  cases hparse : parseChunkFrameHeader frame with
  | error e =>
    constructor
    · rintro ⟨hhas, hgone⟩
      rw [hhas] at hgone
      cases hgone
    · rintro ⟨⟨parsed, hparsed⟩, -⟩
      cases hparsed
  | ok parsed =>
    have hafter := has_foldl_delete (evictions (s.map s.cache)) (s.map s.cache) k
    rw [← map_evict] at hafter
    have hread : ((s.evict.enqueue (.decrypt s.cache frame merkleRoot secretKey)).map s.cache).has k =
        (s.evict.map s.cache).has k := rfl
    rw [hread]
    constructor
    · rintro ⟨hhas, hgone⟩
      refine ⟨⟨parsed, rfl⟩, ?_⟩
      by_contra hkept
      rw [hafter.mpr ⟨hhas, hkept⟩] at hgone
      cases hgone
    · rintro ⟨-, hmem⟩
      refine ⟨mem_evictions_has hmem, ?_⟩
      rw [Bool.eq_false_iff]
      exact fun hhas => (hafter.mp hhas).2 hmem

/-- Something is taken out just when the cache is full and the header is read. -/
theorem exists_removes_iff {s : EdgeCrypto} {frame merkleRoot secretKey : Bytes} :
    (∃ k, Removes s frame merkleRoot secretKey k) ↔
      (∃ parsed, parseChunkFrameHeader frame = .ok parsed) ∧
        MESSAGE_KEY_CACHE_MAX ≤ (s.map s.cache).size := by
  rw [← evictions_ne_nil_iff]
  constructor
  · rintro ⟨k, hk⟩
    obtain ⟨hparse, hmem⟩ := removes_iff.mp hk
    exact ⟨hparse, List.ne_nil_of_mem hmem⟩
  · rintro ⟨hparse, hne⟩
    obtain ⟨k, hmem⟩ := List.exists_mem_of_ne_nil _ hne
    exact ⟨k, removes_iff.mpr ⟨hparse, hmem⟩⟩

/-! ## The rest of the call -/

theorem keepsKeys_refl (s : Live) : KeepsKeys s s := fun _ _ h => h

theorem keepsKeys_set (s : Live) (cache : Nat) (cacheKey : String) (messageKey : Bytes) :
    KeepsKeys s (s.setMap cache ((s.map cache).set cacheKey messageKey)) := by
  intro index k h
  rw [map_setMap]
  by_cases hindex : index = cache ∧ cache < s.maps.length
  · rw [if_pos hindex]
    rw [hindex.1, OrdMap.has_iff, OrdMap.mem_keys_iff] at h
    rw [OrdMap.has_iff, OrdMap.mem_keys_iff]
    obtain ⟨v, hv⟩ := h
    by_cases hk : k = cacheKey
    · exact ⟨messageKey, OrdMap.mem_set_entries.mpr (.inl (by rw [hk]))⟩
    · exact ⟨v, OrdMap.mem_set_entries.mpr (.inr ⟨hv, hk⟩)⟩
  · rw [if_neg hindex]
    exact h

/-- Under the lock a receive stages or settles. -/
theorem begin_keepsKeys (s : EdgeCrypto) {call : Call} (rest : List Call) {cache : Nat}
    {frame merkleRoot secretKey : Bytes} (hrequest : call.request = .decrypt cache frame merkleRoot secretKey) :
    KeepsKeys s.toLive (s.begin L call rest).toLive := by
  unfold EdgeCrypto.begin
  rw [hrequest]
  dsimp only
  split <;> exact keepsKeys_refl _

/-- Its row is posted. -/
theorem post_keepsKeys (s : EdgeCrypto) (call : Call) (rest : List Call) (staged : Staged) (owner : Bool) :
    KeepsKeys s.toLive (s.post call rest staged owner).toLive := by
  unfold EdgeCrypto.post
  split <;> exact keepsKeys_refl _

theorem KeepsKeys.trans {s₁ s₂ s₃ : Live} (h : KeepsKeys s₁ s₂) (h' : KeepsKeys s₂ s₃) : KeepsKeys s₁ s₃ :=
  fun index k hk => h' index k (h index k hk)

theorem noteApplicationMessage_maps {s s' : Live} (h : s.noteApplicationMessage = .ok s') :
    s'.maps = s.maps := by
  unfold Live.noteApplicationMessage at h
  split at h
  · cases h
    rfl
  · split at h
    · cases h
      rfl
    · cases h

/-- Its write is answered: the key is published, or nothing. -/
theorem answer_keepsKeys (s : EdgeCrypto) (call : Call) (rest : List Call) (candidate : RatchetState)
    (cache : Nat) (stagedCache : KeyMap) (cacheKey : String) (messageKey : Bytes) (chunk : DecryptedChunk)
    (row : Row) (write : Write) :
    KeepsKeys s.toLive
      (s.answer call rest (.decrypt candidate cache stagedCache cacheKey messageKey chunk) row write).toLive := by
  have hpublish : KeepsKeys s.toLive
      ({ s.toLive with ratchet := candidate }.setMap cache ((s.map cache).set cacheKey messageKey)) :=
    keepsKeys_set s.toLive cache cacheKey messageKey
  cases write with
  | lost => exact keepsKeys_refl _
  | late => exact keepsKeys_refl _
  | done =>
    show KeepsKeys s.toLive (EdgeCrypto.commit _ call rest _).toLive
    unfold EdgeCrypto.commit
    dsimp only
    split
    · unfold EdgeCrypto.counted
      split
      · rename_i live hcount
        have hmaps := noteApplicationMessage_maps hcount
        intro index k hk
        have hkept := hpublish index k hk
        unfold Live.map at hkept
        show (live.maps.getD index .empty).has k = true
        rw [hmaps]
        exact hkept
      · exact hpublish.trans (keepsKeys_set _ _ _ _)
    · exact hpublish

/-! ## When nothing is taken out needlessly -/

/-- For every edge and frame, and every state in which the call gets the lock: each key the
call takes out goes for the authentic first frame of a message in a full cache just when the
cache is not full, or the header is not read, or the frame is such a one. The rest of the call
takes nothing out. -/
theorem eviction_minimal (s : EdgeCrypto) (frame merkleRoot secretKey : Bytes) (s' : EdgeCrypto) :
    ((∀ k, Removes s frame merkleRoot secretKey k → Begins s.toLive frame ∧
        Authenticates L s'.toLive s.cache frame merkleRoot secretKey ∧
        MESSAGE_KEY_CACHE_MAX < (s.map s.cache).size + 1) ↔
      (s.map s.cache).size < MESSAGE_KEY_CACHE_MAX ∨ (∃ e, parseChunkFrameHeader frame = .error e) ∨
        (Begins s.toLive frame ∧ Authenticates L s'.toLive s.cache frame merkleRoot secretKey)) ∧
    (∀ call rest, call.request = .decrypt s.cache frame merkleRoot secretKey →
      KeepsKeys s'.toLive (s'.begin L call rest).toLive) ∧
    (∀ call rest staged owner, KeepsKeys s'.toLive (s'.post call rest staged owner).toLive) ∧
    (∀ call rest candidate cache stagedCache cacheKey messageKey chunk row write,
      KeepsKeys s'.toLive (s'.answer call rest
        (.decrypt candidate cache stagedCache cacheKey messageKey chunk) row write).toLive) := by
  refine ⟨⟨fun hall => ?_, fun hwhen k hk => ?_⟩, fun call rest hrequest => begin_keepsKeys s' rest hrequest,
    post_keepsKeys s', answer_keepsKeys s'⟩
  · by_cases hfull : MESSAGE_KEY_CACHE_MAX ≤ (s.map s.cache).size
    · cases hparse : parseChunkFrameHeader frame with
      | error e => exact .inr (.inl ⟨e, rfl⟩)
      | ok parsed =>
        obtain ⟨k, hk⟩ := exists_removes_iff.mpr ⟨⟨parsed, hparse⟩, hfull⟩
        obtain ⟨hbegins, hopens, -⟩ := hall k hk
        exact .inr (.inr ⟨hbegins, hopens⟩)
    · exact .inl (Nat.not_le.mp hfull)
  · obtain ⟨⟨parsed, hparse⟩, hfull⟩ := exists_removes_iff.mp ⟨k, hk⟩
    rcases hwhen with hroom | ⟨e, hunread⟩ | ⟨hbegins, hopens⟩
    · exact absurd hroom (Nat.not_lt.mpr hfull)
    · rw [hparse] at hunread
      cases hunread
    · exact ⟨hbegins, hopens, Nat.lt_succ_of_le hfull⟩

open HealingRefinement

/-- A cache with the keys of 256 messages of one chain. -/
def fullCache : KeyMap where
  entries := (List.range MESSAGE_KEY_CACHE_MAX).map fun i => (cacheKey firstHeader.dhPub i 0, List.replicate 32 0)
  nodup := by
    rw [List.map_map]
    exact List.nodup_range.map fun i j h => (cacheKey_inj.mp h).2.1

/-- An idle edge with that cache. -/
def fullEdge : EdgeCrypto := ofLive ⟨dueReceiver.ratchet, some dueRuntime, [fullCache], 0, 0⟩

/-- A header of an epoch the edge never reached, with nothing behind it. -/
def forgedFrame : Bytes := chunkHeader firstHeader 7 sampleNonce.val ++ []

theorem forged_parses : parseChunkFrameHeader forgedFrame = .ok ⟨firstHeader, 7, sampleNonce.val, []⟩ :=
  parse_chunkHeader ⟨rfl, by decide, by decide, by decide⟩ sampleNonce.property []

/-- No key is derived for a frame of an unknown epoch. -/
theorem forged_dropped {s : Live} (hpq : s.pq = some dueRuntime) (cache : Nat) :
    ¬ Authenticates .transparent s cache forgedFrame blankRoot [] := by
  rintro ⟨staged, hstaged⟩
  have hgate : gateEpoch s.resolver 7 (cloneRatchet s.ratchet).rootSuite = none := by
    unfold Live.resolver
    rw [hpq]
    rfl
  have hdropped := @decryptMessageChunk_unresolved .transparent blankRoot [] forgedFrame s.resolver
    ⟨firstHeader, 7, sampleNonce.val, []⟩ ⟨cloneRatchet s.ratchet, s.map cache⟩ (LibCrypto.length_sha512 _ _)
    forged_parses hgate
  unfold stageDecrypt at hstaged
  rw [forged_parses, ok_bind] at hstaged
  obtain ⟨k, -, hstaged⟩ := except_bind_eq_ok.mp hstaged
  rw [hdropped] at hstaged
  cases hstaged

/-- A forged frame takes the key of another message out of a full cache. -/
theorem forged_frame_evicts : ∃ k, Removes fullEdge forgedFrame blankRoot [] k ∧
    ¬ Authenticates .transparent (fullEdge.receive forgedFrame blankRoot []).toLive fullEdge.cache
      forgedFrame blankRoot [] := by
  have hfull : (fullEdge.map fullEdge.cache).size = MESSAGE_KEY_CACHE_MAX := by
    show ((List.range MESSAGE_KEY_CACHE_MAX).map _).length = _
    rw [List.length_map, List.length_range]
  obtain ⟨k, hk⟩ := @exists_removes_iff fullEdge forgedFrame blankRoot [] |>.mpr
    ⟨⟨_, forged_parses⟩, Nat.le_of_eq hfull.symm⟩
  refine ⟨k, hk, forged_dropped ?_ _⟩
  unfold EdgeCrypto.receive
  rw [forged_parses]
  rfl

end EdgeCrypto

end P2Party
