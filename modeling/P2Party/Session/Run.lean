import P2Party.Base.TwoParty
import P2Party.PqHealing.Delivery
import P2Party.PqHealing.Orchestrator
import P2Party.Session.Snapshot

/-!
# Runs of one session

A session starts as `createSession` leaves it and then takes any sequence of
method calls, each with any inputs, random bytes and clock readings; calls that
throw are part of the run.

- `Op`, `Op.run`, `Outcome`: the methods as one family of operations;
- `Created`: the session a completed handshake leaves;
- `Created.wellFormed`, `Op.keeps`, `wellFormed_of_runs`: every session of a run is
  well formed, and of the same edge.
-/

namespace P2Party

open Base PqHealing PqHealingRuntime

namespace Session

/-! ## Operations -/

/-- A method call with its inputs and the randomness and clock readings it draws. -/
inductive Op
  | encrypt (plaintext : Bytes) (ρ : EncryptRandomness)
  | decrypt (message : EncryptedSessionMessage) (secretKey : Nat → RandomBytes 32)
  | prepareHealing (coins : Bytes) (nonce : Nonce) (due now dispatched : Instant)
  | acceptControlFrame (frame coins : Bytes) (nonce : Nonce) (now dispatched : Instant)
  | pendingControl
  | serialize

/-- What a call gives its caller. -/
inductive Outcome
  | message (message : EncryptedSessionMessage)
  | plaintext (plaintext : Bytes)
  | control (output : SessionControlOutput)
  | pending (frame : Option Bytes)
  | snapshot (snapshot : Bytes)
  | rejected (error : JsError)

/-- The outcome and the session a call leaves. -/
def outcomeOf {α : Type} (wrap : α → Outcome) :
    EStateM.Result JsError Session α → Outcome × Session
  | .ok a s => (wrap a, s)
  | .error e s => (.rejected e, s)

/-- Make a call. -/
def Op.run (L : LibCrypto) (op : Op) (s : Session) : Outcome × Session :=
  match op with
  | .encrypt plaintext ρ => outcomeOf .message ((Session.encrypt L plaintext ρ).run s)
  | .decrypt message secretKey =>
    outcomeOf .plaintext ((Session.decrypt L message secretKey).run s)
  | .prepareHealing coins nonce due now dispatched =>
    outcomeOf .control ((Session.prepareHealing L coins nonce due now dispatched).run s)
  | .acceptControlFrame frame coins nonce now dispatched =>
    outcomeOf .control ((Session.acceptControlFrame L frame coins nonce now dispatched).run s)
  | .pendingControl => outcomeOf .pending (Session.pendingControl.run s)
  | .serialize => outcomeOf .snapshot (Session.serialize.run s)

theorem outcomeOf_session {α : Type} (wrap : α → Outcome) (result : EStateM.Result JsError Session α) :
    (outcomeOf wrap result).2 = finalState result := by
  cases result <;> rfl

/-! ## Created sessions -/

/-- The ratchet a completed handshake leaves (handshakeCore.ts:731, 759, 789). -/
inductive Bootstrapped (L : LibCrypto) (suite : RatchetRootSuite) : Bool → RatchetState → Prop
  | initiator {seed remote secretKey : Bytes} {state : RatchetState} (hseed : seed.length = 32)
      (hremote : remote.length = 32) (hsec : secretKey.length = 32)
      (hinit : initRatchet L seed true (some remote) suite secretKey = .ok state) :
      Bootstrapped L suite true state
  | responder {seed remote secretKey secretKey' : Bytes} {unprimed state : RatchetState}
      (hseed : seed.length = 32) (hsec : secretKey.length = 32) (hsec' : secretKey'.length = 32)
      (hinit : initRatchet L seed false none suite secretKey = .ok unprimed)
      (hprime : (primeResponderRatchet L remote secretKey').run unprimed = .ok () state) :
      Bootstrapped L suite false state

/-- The session `createSession` returns (session.ts:1073-1206): a bootstrapped ratchet
and a new healing runtime of the same suite, whose first offer is the initiator's. -/
structure Created (L : LibCrypto) (s : Session) : Prop where
  live : s.destroyed = false
  ratchet : Bootstrapped L s.pq.rootSuite s.amInitiator s.state
  runtime : ∃ pqMode binding rootKey, ∃ now : Instant,
    SparsePqHealingState.new pqMode s.pq.rootSuite binding rootKey
      (if s.amInitiator then .local else .remote) s.amInitiator now.val = .ok s.pq

variable {L : LibCrypto} {s s' : Session}

theorem Bootstrapped.ratchetIn {suite : RatchetRootSuite} {amInitiator : Bool}
    {state : RatchetState} (h : Bootstrapped L suite amInitiator state) : RatchetIn suite state := by
  cases h with
  | initiator hseed hremote hsec hinit =>
    refine initRatchet_ok hseed hsec ?_ hinit
    rintro _ ⟨⟩
    exact hremote
  | responder hseed hsec hsec' hinit hprime =>
    refine primeResponderRatchet_ok hsec' (initRatchet_ok hseed hsec ?_ hinit) hprime
    rintro _ ⟨⟩

/-- The runtime a constructor call makes has the role it was given and no keys yet. -/
theorem new_fields {pqMode : RoomPqMode} {rootSuite : RatchetRootSuite}
    {binding rootKey : Bytes} {nextOfferer : PqHealingTurn} {amInitiator : Bool} {now : Nat}
    {r : SparsePqHealingState}
    (h : SparsePqHealingState.new pqMode rootSuite binding rootKey nextOfferer amInitiator now =
      .ok r) : r.amInitiator = amInitiator ∧ r.activeReceiveKeys = .empty := by
  unfold SparsePqHealingState.new at h
  iterate 3 obtain ⟨_, -, h⟩ := except_bind_eq_ok.mp h
  obtain ⟨machine, -, h⟩ := except_bind_eq_ok.mp h
  obtain ⟨_, -, h⟩ := except_bind_eq_ok.mp h
  rw [← except_pure_eq_ok.mp h]
  exact ⟨rfl, rfl⟩

theorem Created.wellFormed (h : Created L s) : s.WellFormed := by
  obtain ⟨pqMode, binding, rootKey, now, hnew⟩ := h.runtime
  obtain ⟨hratchet, hsuite⟩ := h.ratchet.ratchetIn
  obtain ⟨hrole, hkeys⟩ := new_fields hnew
  refine ⟨h.live, hratchet, new_wellFormed hnew, ?_, hsuite.symm, hrole⟩
  rw [hkeys]
  rintro _ ⟨⟩

/-! ## Names of active keys -/

theorem isDigit_of_mem_toDigits {n : Nat} {c : Char} (h : c ∈ Nat.toDigits 10 n) :
    c.isDigit = true := Nat.isDigit_of_mem_toDigits (by decide) (by decide) h

theorem toDigits_ne_nil (n : Nat) : (Nat.toDigits 10 n).isEmpty = false := by
  cases hdigits : Nat.toDigits 10 n with
  | nil =>
    have hpos := @Nat.length_toDigits_pos 10 n
    rw [hdigits] at hpos
    exact absurd hpos (Nat.lt_irrefl 0)
  | cons c cs => rfl

/-- The name of a combined key is one the checkpoint accepts. -/
theorem canonicalCacheKey_cacheKey {dhPub : Bytes} (hdh : dhPub.length = 32) (N epoch : Nat) :
    canonicalCacheKey (cacheKey dhPub N epoch) = true := by
  have hlen : (hexChars dhPub).length = 64 := by
    rw [length_hexChars, hdh]
  have htake : (hexChars dhPub ++ ':' :: (Nat.toDigits 10 N ++ ':' :: Nat.toDigits 10 epoch)).take 64 =
      hexChars dhPub := List.take_left' hlen
  have hdrop : (hexChars dhPub ++ ':' :: (Nat.toDigits 10 N ++ ':' :: Nat.toDigits 10 epoch)).drop 64 =
      ':' :: (Nat.toDigits 10 N ++ ':' :: Nat.toDigits 10 epoch) := List.drop_left' hlen
  have hhex : (hexChars dhPub).all isHexDigit = true :=
    List.all_eq_true.mpr fun c hc => isHexDigit_of_mem_hexChars hc
  have hdigits : ∀ c ∈ Nat.toDigits 10 N, c.isDigit = true := fun c => isDigit_of_mem_toDigits
  have hcolon : Char.isDigit ':' = false := by decide
  have hlast : (Nat.toDigits 10 epoch).all Char.isDigit = true :=
    List.all_eq_true.mpr fun c => isDigit_of_mem_toDigits
  unfold canonicalCacheKey cacheKey
  simp only [String.toList_ofList, htake, hdrop, hlen, hhex,
    List.takeWhile_append_of_pos hdigits, List.dropWhile_append_of_pos hdigits,
    List.takeWhile_cons, List.dropWhile_cons, hcolon, Bool.false_eq_true, if_false, List.append_nil,
    toDigits_ne_nil, hlast]
  rfl

/-- It is short enough, too. -/
theorem length_cacheKey {dhPub : Bytes} {N epoch : Nat} (hdh : dhPub.length = 32)
    (hN : N ≤ MAX_SAFE_INTEGER) (hepoch : epoch ≤ MAX_U64) :
    (textEncode (cacheKey dhPub N epoch)).length ≤ MAX_CACHE_KEY_BYTES := by
  have hNdigits : (Nat.toDigits 10 N).length ≤ 16 :=
    (Nat.length_toDigits_le_iff (by decide) (by decide)).mpr (Nat.lt_of_le_of_lt hN (by decide))
  have hedigits : (Nat.toDigits 10 epoch).length ≤ 20 :=
    (Nat.length_toDigits_le_iff (by decide) (by decide)).mpr (Nat.lt_of_le_of_lt hepoch (by decide))
  rw [textEncode_of_ascii (canonicalCacheKey_ascii (canonicalCacheKey_cacheKey hdh N epoch)),
    List.length_map, cacheKey, String.toList_ofList]
  simp only [List.length_append, List.length_cons, length_hexChars, hdh]
  show _ ≤ 160
  omega

theorem ActiveKeysOk.set {keys : OrdMap String Bytes} (h : ActiveKeysOk keys) {dhPub key : Bytes}
    {N epoch : Nat} (hdh : dhPub.length = 32) (hN : N ≤ MAX_SAFE_INTEGER)
    (hepoch : epoch ≤ MAX_U64) (hkey : key.length = 32) :
    ActiveKeysOk (keys.set (cacheKey dhPub N epoch) key) := by
  intro entry hentry
  rcases OrdMap.mem_set_entries.mp hentry with rfl | ⟨hold, -⟩
  · exact ⟨canonicalCacheKey_cacheKey hdh N epoch, length_cacheKey hdh hN hepoch, hkey⟩
  · exact h entry hold

/-! ## Receiving keeps the staged copies well formed -/

/-- What the staged copies of a session satisfy. -/
def ReceiverOk (suite : RatchetRootSuite) (receiver : ChunkReceiver) : Prop :=
  RatchetIn suite receiver.state ∧ ActiveKeysOk receiver.cache

/-- A derived key has 32 bytes, and the clone it was derived on is well formed. -/
theorem deriveMessageKey_ok {suite : RatchetRootSuite} {state clone : RatchetState}
    {header : RatchetHeader} {context : PqMessageKeyContext} {secretKey : RandomBytes 32}
    {epoch : Nat} {messageKey : Bytes} (h : RatchetIn suite state) (hfits : HeaderFits header epoch)
    (hderive : deriveMessageKey L state header (some context) secretKey.val =
      some (messageKey, clone)) : RatchetIn suite clone ∧ messageKey.length = 32 := by
  unfold deriveMessageKey at hderive
  rw [cloneRatchet_eq h.1.canonical] at hderive
  have hkeeps := ratchetDecrypt_keeps (L := L) hfits.dhPub hfits.N hfits.PN secretKey.property state h
  cases hrun : (ratchetDecrypt L header secretKey.val).run state with
  | error e s₁ =>
    rw [hrun] at hderive
    cases hderive
  | ok classical s₁ =>
    rw [hrun] at hderive hkeeps
    simp only at hderive
    cases hcombine : combinePqMessageKey L classical context header with
    | error e =>
      rw [hcombine] at hderive
      cases hderive
    | ok key =>
      rw [hcombine] at hderive
      cases hderive
      exact ⟨hkeeps, length_combinePqMessageKey hcombine⟩

/-- A context that passed the epoch gate. -/
theorem gateEpoch_some {resolve : PqMessageKeyContextResolver} {epoch : Nat}
    {suite : RatchetRootSuite} {pqContext : Option PqMessageKeyContext}
    (h : gateEpoch (some resolve) epoch suite = some pqContext) :
    ∃ context, pqContext = some context ∧ resolve epoch = .ok (some context) ∧
      resolvedContextMatches context epoch suite = true := by
  unfold gateEpoch at h
  simp only at h
  split at h
  case h_1 context hresolve =>
    split at h
    case isTrue hmatches =>
      cases h
      exact ⟨context, rfl, hresolve, hmatches⟩
    case isFalse => cases h
  case h_2 => cases h

theorem decryptMessageChunk_keeps {suite : RatchetRootSuite} {frame root : Bytes}
    {resolve : PqMessageKeyContextResolver} {secretKey : RandomBytes 32}
    (hroot : root.length = HASH_BYTES) :
    Keeps (ReceiverOk suite) (decryptMessageChunk L frame root (some resolve) secretKey.val) := by
  rintro receiver ⟨hstate, hcache⟩
  cases hparse : parseChunkFrameHeader frame with
  | error e =>
    rw [decryptMessageChunk_unparsed hroot hparse]
    exact ⟨hstate, hcache⟩
  | ok parsed =>
    have hfits := headerFits_of_parse hparse
    cases hgate : gateEpoch (some resolve) parsed.pqEpoch receiver.state.rootSuite with
    | none =>
      rw [decryptMessageChunk_unresolved hroot hparse hgate]
      exact ⟨hstate, hcache⟩
    | some pqContext =>
      have hkey := @messageCacheKey_eq parsed.header.dhPub parsed.header.N _ hfits.epoch
      cases hcached : receiver.cache.get (cacheKey parsed.header.dhPub parsed.header.N
          parsed.pqEpoch) with
      | some key =>
        rw [decryptMessageChunk_hit hroot hparse hgate hkey hcached]
        exact ⟨hstate, hcache⟩
      | none =>
        obtain ⟨context, rfl, -⟩ := gateEpoch_some hgate
        rw [decryptMessageChunk_miss hroot hparse hgate hkey hcached]
        cases hderive : deriveMessageKey L receiver.state parsed.header (some context)
            secretKey.val with
        | none => exact ⟨hstate, hcache⟩
        | some derived =>
          obtain ⟨messageKey, clone⟩ := derived
          obtain ⟨hclone, hlen⟩ := deriveMessageKey_ok hstate hfits hderive
          simp only
          split
          · exact ⟨hstate, hcache⟩
          · exact ⟨hclone, ActiveKeysOk.set hcache hfits.dhPub hfits.N hfits.epoch hlen⟩

theorem decryptFrames_keeps {suite : RatchetRootSuite} {root : Bytes}
    {resolve : PqMessageKeyContextResolver} {secretKey : Nat → RandomBytes 32}
    (hroot : root.length = HASH_BYTES) (frames : List (Bytes × Nat)) :
    Keeps (ReceiverOk suite) (decryptFrames L resolve root secretKey frames) := by
  induction frames with
  | nil => exact fun receiver h => h
  | cons frame frames ih =>
    obtain ⟨frame, index⟩ := frame
    refine Keeps.bind (decryptMessageChunk_keeps hroot) fun result => ?_
    split
    · exact Keeps.bind (Keeps.attempt _) fun metadata => Keeps.bind ih fun records => Keeps.pure _
    · exact Keeps.throw _

/-- Publishing staged keys adds only well-formed ones. -/
theorem adoptActiveReceiveKeys_ok {live staged : OrdMap String Bytes} (hlive : ActiveKeysOk live)
    (hstaged : ActiveKeysOk staged) : ActiveKeysOk (adoptActiveReceiveKeys live staged) := by
  intro entry hentry
  have hget := OrdMap.get_eq_some_iff.mpr hentry
  rw [adoptActiveReceiveKeys, OrdMap.get_merge, Option.or_eq_some_iff] at hget
  rcases hget with hold | ⟨-, hnew⟩
  · exact hlive entry (OrdMap.get_eq_some_iff.mp hold)
  · exact hstaged entry (OrdMap.get_eq_some_iff.mp hnew)

/-! ## Every operation keeps the session well formed -/

/-- Two sessions of one edge. -/
structure SameEdge (s s' : Session) : Prop where
  amInitiator : s'.amInitiator = s.amInitiator
  rootSuite : s'.pq.rootSuite = s.pq.rootSuite
  binding : s'.pq.binding = s.pq.binding

/-- What a call keeps. -/
def Kept (s s' : Session) : Prop := s'.WellFormed ∧ SameEdge s s'

theorem kept_refl (h : s.WellFormed) : Kept s s := ⟨h, rfl, rfl, rfl⟩

theorem WellFormed.adopted (h : s.WellFormed) {next : RatchetState} {keys : OrdMap String Bytes}
    (hnext : RatchetIn s.state.rootSuite next) (hkeys : ActiveKeysOk keys)
    (hcount : s.pq.messagesSinceHealing < MAX_SAFE_INTEGER) : Kept s (s.adopted next keys) := by
  obtain ⟨hm, hb, hs, hrs, hmr, hlh, hmsg, hph, hob, hof, haf, hack, hpair⟩ := h.runtime
  exact ⟨⟨h.live, hnext.1, ⟨hm, hb, hs, hrs, hmr, hlh, hcount, hph, hob, hof, haf, hack, hpair⟩,
    hkeys, h.suite.trans hnext.2.symm, h.role⟩, rfl, rfl, rfl⟩

theorem WellFormed.overflowed (h : s.WellFormed) {next : RatchetState} {keys : OrdMap String Bytes}
    (hnext : RatchetIn s.state.rootSuite next) (hkeys : ActiveKeysOk keys) :
    Kept s (s.overflowed next keys) := by
  obtain ⟨hm, hb, hs, hrs, hmr, hlh, hmsg, hph, hob, hof, haf, hack, hpair⟩ := h.runtime
  obtain ⟨hwiped, hsuite⟩ := hnext.1.wiped
  exact ⟨⟨h.live, hwiped, ⟨hm, hb, hs, hrs, hmr, hlh, hmsg, hph, hob, hof, haf, hack, hpair⟩, hkeys,
    h.suite.trans (hsuite.trans hnext.2).symm, h.role⟩, rfl, rfl, rfl⟩

theorem sealMessage_ok (h : s.WellFormed) {plaintext : Bytes} {ρ : EncryptRandomness}
    {message : EncryptedSessionMessage} {next : RatchetState}
    (hseal : sealMessage L s plaintext ρ = .ok (message, next)) :
    RatchetIn s.state.rootSuite next := by
  unfold sealMessage at hseal
  rw [cloneRatchet_eq h.ratchet.canonical] at hseal
  obtain ⟨prepared, -, hseal⟩ := except_bind_eq_ok.mp hseal
  cases hrun : (ratchetEncrypt L).run s.state with
  | error e s₁ =>
    rw [hrun] at hseal
    cases hseal
  | ok result s₁ =>
    rw [hrun] at hseal
    obtain ⟨frames, -, hseal⟩ := except_bind_eq_ok.mp hseal
    cases hseal
    exact h.ratchet.encrypt hrun

theorem encrypt_kept (h : s.WellFormed) (plaintext : Bytes) (ρ : EncryptRandomness) :
    Kept s (finalState ((encrypt L plaintext ρ).run s)) := by
  rcases @encrypt_cases L s plaintext ρ with ⟨e, herr⟩ | ⟨hlive, hfree, hchain, message, next, hseal⟩
  · rw [herr]
    exact kept_refl h
  · have hnext := sealMessage_ok h hseal
    rw [encrypt_run hlive hfree hchain hseal]
    split
    case isTrue hcount => exact h.adopted hnext h.keys hcount
    case isFalse => exact h.overflowed hnext h.keys

/-- The staged copies of a message that opened are well formed. -/
theorem openMessage_ok (h : s.WellFormed) {message : EncryptedSessionMessage}
    {secretKey : Nat → RandomBytes 32} {plaintext : Bytes} {staged : ChunkReceiver}
    (hcheck : checkMessage message = .ok ())
    (hopen : openMessage L s message secretKey = .ok (plaintext, staged)) :
    ReceiverOk s.state.rootSuite staged := by
  have hroot : message.root.length = HASH_BYTES := by
    unfold checkMessage at hcheck
    obtain ⟨_, -, hcheck⟩ := except_bind_eq_ok.mp hcheck
    obtain ⟨_, hroot, -⟩ := except_bind_eq_ok.mp hcheck
    exact demand_eq_ok.mp hroot
  obtain ⟨parsed, records, -, -, hrun, -⟩ := openMessage_steps hopen
  rw [cloneRatchet_eq h.ratchet.canonical] at hrun
  have hkeeps := @decryptFrames_keeps L s.state.rootSuite message.root s.resolver secretKey hroot
    message.frames.zipIdx ⟨s.state, s.pq.activeReceiveKeys⟩ ⟨⟨h.ratchet, rfl⟩, h.keys⟩
  rw [hrun] at hkeeps
  exact hkeeps

theorem decrypt_kept (h : s.WellFormed) (message : EncryptedSessionMessage)
    (secretKey : Nat → RandomBytes 32) :
    Kept s (finalState ((decrypt L message secretKey).run s)) := by
  rcases @decrypt_cases L s message secretKey with
    ⟨e, herr⟩ | ⟨hcheck, hlive, plaintext, staged, hopen⟩
  · rw [herr]
    exact kept_refl h
  · obtain ⟨hstate, hcache⟩ := openMessage_ok h hcheck hopen
    rw [decrypt_run hcheck hlive hopen]
    split
    case isTrue hcount =>
      exact h.adopted hstate (adoptActiveReceiveKeys_ok h.keys hcache) hcount
    case isFalse => exact h.overflowed hstate (adoptActiveReceiveKeys_ok h.keys hcache)

/-! ## Healing -/

theorem onPq_ok {α : Type} {m : RuntimeM α} {a : α} {r : SparsePqHealingState}
    (h : m.run s.pq = .ok a r) : (onPq m).run s = .ok a { s with pq := r } := by
  rw [onPq, run_zoom, h]

theorem onPq_error {α : Type} {m : RuntimeM α} {e : JsError} {r : SparsePqHealingState}
    (h : m.run s.pq = .error e r) : (onPq m).run s = .error e { s with pq := r } := by
  rw [onPq, run_zoom, h]

/-- An OFFER that is due is made. -/
theorem prepareHealing_run (h : s.WellFormed) {coins pk sk : Bytes} (nonce : Nonce) {due now : Instant}
    (dispatched : Instant) (hdue : s.pq.healingDue due.val = .ok true) (ho : Offered L s.pq coins now.val pk sk) :
    (prepareHealing L coins nonce due now dispatched).run s =
      .ok ⟨some (s.pq.offerFrame L pk nonce), true⟩
        { s with pq := (s.pq.offerMade L pk sk nonce now.val).dispatched dispatched.val } := by
  have hsafe : dispatched.val ≤ MAX_SAFE_INTEGER := Nat.le_trans dispatched.property (by decide)
  have hmark := @markPendingDispatched_run (s.pq.offerMade L pk sk nonce now.val) _ dispatched.val rfl hsafe
    (Nat.succ_pos _)
  unfold prepareHealing prepareHealingWith
  rw [run_assertLive_bind h.live, run_get_bind, run_attempt_of_ok hdue]
  refine (run_bind_of_ok (onPq_ok (prepareHealingOffer_run h.runtime ho))).trans ?_
  exact (run_bind_of_ok (@onPq_ok { s with pq := s.pq.offerMade L pk sk nonce now.val } _ _ _ _ hmark)).trans rfl

/-- `prepareHealing` throws, finds nothing due, or makes an OFFER. -/
theorem prepareHealing_cases (h : s.WellFormed) (coins : Bytes) (nonce : Nonce)
    (due now dispatched : Instant) :
    (∃ e, (prepareHealing L coins nonce due now dispatched).run s = .error e s) ∨
    (prepareHealing L coins nonce due now dispatched).run s = .ok NO_CONTROL s ∨
    ∃ pk sk, Offered L s.pq coins now.val pk sk ∧
      (prepareHealing L coins nonce due now dispatched).run s =
        .ok ⟨some (s.pq.offerFrame L pk nonce), true⟩
          { s with pq := (s.pq.offerMade L pk sk nonce now.val).dispatched dispatched.val } := by
  cases hdue : s.pq.healingDue due.val with
  | error e =>
    left
    unfold prepareHealing prepareHealingWith
    rw [run_assertLive_bind h.live, run_get_bind, run_attempt_of_error hdue]
    exact ⟨e, rfl⟩
  | ok isDue =>
    cases isDue with
    | false =>
      right; left
      unfold prepareHealing prepareHealingWith
      rw [run_assertLive_bind h.live, run_get_bind, run_attempt_of_ok hdue]
      rfl
    | true =>
      rcases @prepareHealingOfferWith_cases L s.pq false coins nonce now.val with
        ⟨e, herr⟩ | ⟨pk, sk, ho⟩
      · left
        unfold prepareHealing prepareHealingWith
        rw [run_assertLive_bind h.live, run_get_bind, run_attempt_of_ok hdue]
        exact ⟨e, run_bind_of_error (onPq_error herr)⟩
      · exact .inr (.inr ⟨pk, sk, ho, prepareHealing_run h nonce dispatched hdue ho⟩)

theorem acceptControlFrameWith_run {fails : Bool} {frame coins : Bytes} {nonce : Nonce}
    {now dispatched : Instant} {result : PqHealingControlResult} {r : SparsePqHealingState}
    (hlive : s.destroyed = false) (hlen : frame.length = WIRE_CHUNK_FRAME_LEN)
    (ha : Accepted L s.pq frame coins nonce now.val result r)
    (hrun : (PqHealingRuntime.acceptControlFrameWith L fails frame coins nonce now.val).run s.pq =
      .ok result r) :
    (acceptControlFrameWith L fails frame coins nonce now dispatched).run s =
      .ok ⟨result.dispatch, result.changed⟩
        { s with pq := PqHealingOrchestrator.SparsePqHealingState.entered r result dispatched.val } := by
  have hlen' : requireBytes frame "control frame" WIRE_CHUNK_FRAME_LEN = .ok () := demand_of hlen
  have hsafe : dispatched.val ≤ MAX_SAFE_INTEGER := Nat.le_trans dispatched.property (by decide)
  unfold acceptControlFrameWith
  rw [run_attempt_of_ok hlen', run_assertLive_bind hlive, run_bind_of_ok (onPq_ok hrun)]
  cases ha with
  | repeatedOffer => rfl
  | repeatedAdvance => rfl
  | acknowledgement => rfl
  | advance => rfl
  | offer fresh =>
    refine (run_bind_of_ok (onPq_ok (@markPendingDispatched_run (s.pq.offerAnswered ..) _
      dispatched.val rfl hsafe (Nat.succ_pos _)))).trans rfl

/-- `acceptControlFrame` throws with the runtime left as a refusal leaves it, or
accepts the frame. -/
theorem acceptControlFrame_cases (h : s.WellFormed) (frame coins : Bytes) (nonce : Nonce)
    (now dispatched : Instant) :
    (∃ e r, Refused L s.pq frame coins now.val r ∧
      (acceptControlFrame L frame coins nonce now dispatched).run s = .error e { s with pq := r }) ∨
    ∃ result r, Accepted L s.pq frame coins nonce now.val result r ∧
      (acceptControlFrame L frame coins nonce now dispatched).run s =
        .ok ⟨result.dispatch, result.changed⟩
          { s with pq := PqHealingOrchestrator.SparsePqHealingState.entered r result dispatched.val } := by
  unfold acceptControlFrame acceptControlFrameWith
  rw [run_attempt_bind]
  cases hlen : requireBytes frame "control frame" WIRE_CHUNK_FRAME_LEN with
  | error e => exact .inl ⟨e, s.pq, .unchanged, rfl⟩
  | ok _ =>
    simp only [run_assertLive_bind h.live]
    rcases @PqHealingRuntime.acceptControlFrame_cases L s.pq h.runtime frame coins nonce now.val with
      ⟨e, r, hrefused, herr⟩ | ⟨result, r, haccepted⟩
    · exact .inl ⟨e, r, hrefused, run_bind_of_error (onPq_error herr)⟩
    · refine .inr ⟨result, r, haccepted, ?_⟩
      have hrun := @acceptControlFrameWith_run L s false frame coins nonce now dispatched result r
        h.live (demand_eq_ok.mp hlen) haccepted (acceptControlFrame_run h.runtime haccepted)
      unfold acceptControlFrameWith at hrun
      rwa [run_attempt_of_ok hlen, run_assertLive_bind h.live] at hrun

/-- What a runtime transition leaves to its session. -/
theorem kept_withPq (h : s.WellFormed) {r : SparsePqHealingState} (hr : r.WellFormed)
    (hkeys : r.activeReceiveKeys = s.pq.activeReceiveKeys) (hsuite : r.rootSuite = s.pq.rootSuite)
    (hrole : r.amInitiator = s.pq.amInitiator) (hbinding : r.binding = s.pq.binding) :
    Kept s { s with pq := r } :=
  ⟨⟨h.live, h.ratchet, hr, hkeys ▸ h.keys, hsuite.trans h.suite, hrole.trans h.role⟩, rfl, hsuite,
    hbinding⟩

theorem prepareHealing_kept (h : s.WellFormed) (coins : Bytes) (nonce : Nonce)
    (due now dispatched : Instant) :
    Kept s (finalState ((prepareHealing L coins nonce due now dispatched).run s)) := by
  rcases @prepareHealing_cases L s h coins nonce due now dispatched with
    ⟨e, herr⟩ | hnone | ⟨pk, sk, ho, hrun⟩
  · rw [herr]
    exact kept_refl h
  · rw [hnone]
    exact kept_refl h
  · rw [hrun]
    have hsafe : now.val ≤ MAX_SAFE_INTEGER := Nat.le_trans now.property (by decide)
    exact kept_withPq h ((h.runtime.offerMade ho hsafe).dispatched rfl (Nat.succ_pos _)
      dispatched.property) rfl rfl rfl rfl

/-- The runtime an accepted frame leaves is well formed, dispatched or not. -/
theorem entered_wellFormed {r r' : SparsePqHealingState} {frame coins : Bytes} {nonce : Nonce}
    {now : Nat} {result : PqHealingControlResult} (h : r.WellFormed)
    (ha : Accepted L r frame coins nonce now result r') (dispatched : Instant) :
    (PqHealingOrchestrator.SparsePqHealingState.entered r' result dispatched.val).WellFormed := by
  have hr' := ha.wellFormed h
  cases ha with
  | repeatedOffer => exact hr'
  | repeatedAdvance => exact hr'
  | acknowledgement => exact hr'
  | offer => exact hr'.dispatched rfl (Nat.succ_pos _) dispatched.property
  | advance => exact hr'

theorem acceptControlFrame_kept (h : s.WellFormed) (frame coins : Bytes) (nonce : Nonce)
    (now dispatched : Instant) :
    Kept s (finalState ((acceptControlFrame L frame coins nonce now dispatched).run s)) := by
  rcases @acceptControlFrame_cases L s h frame coins nonce now dispatched with
    ⟨e, r, hrefused, herr⟩ | ⟨result, r, haccepted, hrun⟩
  · rw [herr]
    have hr := hrefused.wellFormed h.runtime
    cases hrefused <;> exact kept_withPq h hr rfl rfl rfl rfl
  · rw [hrun]
    have hr := entered_wellFormed h.runtime haccepted dispatched
    cases haccepted <;> exact kept_withPq h hr rfl rfl rfl rfl

theorem pendingControl_run (h : s.WellFormed) :
    pendingControl.run s = .ok s.pq.copyPendingFrame s := by
  unfold pendingControl
  rw [run_assertLive_bind h.live]
  rfl

theorem serialize_kept (h : s.WellFormed) : finalState (serialize.run s) = s := by
  by_cases hfits : s.SnapshotFits
  · rw [(serialize_run h).1 hfits]
    rfl
  · obtain ⟨e, herr⟩ := (serialize_run h).2 hfits
    rw [herr]
    rfl

/-- Every call keeps the session well formed, returned or thrown. -/
theorem Op.keeps (h : s.WellFormed) (op : Op) : Kept s (op.run L s).2 := by
  unfold Op.run
  cases op with
  | encrypt plaintext ρ =>
    rw [outcomeOf_session]
    exact encrypt_kept h plaintext ρ
  | decrypt message secretKey =>
    rw [outcomeOf_session]
    exact decrypt_kept h message secretKey
  | prepareHealing coins nonce due now dispatched =>
    rw [outcomeOf_session]
    exact prepareHealing_kept h coins nonce due now dispatched
  | acceptControlFrame frame coins nonce now dispatched =>
    rw [outcomeOf_session]
    exact acceptControlFrame_kept h frame coins nonce now dispatched
  | pendingControl =>
    rw [outcomeOf_session, pendingControl_run h]
    exact kept_refl h
  | serialize =>
    rw [outcomeOf_session, serialize_kept h]
    exact kept_refl h

/-- One call. -/
def Step (L : LibCrypto) (s s' : Session) : Prop := ∃ op : Op, s' = (op.run L s).2

/-- Every session of a run is well formed. -/
theorem wellFormed_of_runs (h : s.WellFormed) (hruns : Runs (Step L) s s') : s'.WellFormed :=
  Runs.invariant (fun _ _ hwf ⟨op, hop⟩ => hop ▸ (op.keeps hwf).1) h hruns

/-! ## A sample handshake -/

open HealingRefinement

/-- A secret of 32 equal bytes. -/
def sampleSecret (n : UInt8) : Bytes := List.replicate 32 n

/-- The agreement of two such secrets. -/
def sampleShared (L : LibCrypto) (mine theirs : UInt8) : Bytes :=
  (L.x25519Scalarmult (sampleSecret mine) (L.x25519Base (sampleSecret theirs))).getD []

/-- The ratchets two parties leave a handshake with: the initiator's secret is all ones,
the responder's are all twos and then all threes. -/
def sampleRatchet (L : LibCrypto) : Role → RatchetState :=
  let first := kdfRk L (sampleSecret 7) (sampleShared L 1 2)
  let second := kdfRk L first.1 (sampleShared L 3 1)
  fun
  | .initiator =>
    ⟨.hybridMlkem768, first.1, some first.2, none, L.x25519Base (sampleSecret 1), sampleSecret 1,
      some (L.x25519Base (sampleSecret 2)), 0, 0, 0, OrdMap.empty⟩
  | .responder =>
    ⟨.hybridMlkem768, second.1, some second.2, some first.2, L.x25519Base (sampleSecret 3),
      sampleSecret 3, some (L.x25519Base (sampleSecret 1)), 0, 0, 0, OrdMap.empty⟩

theorem sampleShared_eq (hdh : L.DhLaws) (mine theirs : UInt8) :
    L.x25519Scalarmult (sampleSecret mine) (L.x25519Base (sampleSecret theirs)) =
      some (sampleShared L mine theirs) := by
  obtain ⟨shared, hshared⟩ := Option.isSome_iff_exists.mp
    (hdh.defined (sampleSecret mine) (sampleSecret theirs))
  rw [sampleShared, hshared]
  rfl

theorem sampleRatchet_bootstrapped (hdh : L.DhLaws) (r : Role) :
    Bootstrapped L .hybridMlkem768 (decide (r = .initiator)) (sampleRatchet L r) := by
  cases r with
  | initiator =>
    refine @Bootstrapped.initiator L _ (sampleSecret 7) (L.x25519Base (sampleSecret 2))
      (sampleSecret 1) _ rfl (by simp) rfl ?_
    simp only [initRatchet, LibCrypto.x25519Dh, sampleShared_eq hdh, if_true, ok_bind]
    rfl
  | responder =>
    have hshared := (hdh.commutes (sampleSecret 2) (sampleSecret 1)).trans (sampleShared_eq hdh 1 2)
    refine @Bootstrapped.responder L _ (sampleSecret 7) (L.x25519Base (sampleSecret 1))
      (sampleSecret 2) (sampleSecret 3) _ _ rfl rfl rfl rfl ?_
    rw [primeResponderRatchet_run L (by simp [RATCHET_DHPUB_LEN]) rfl,
      dhRatchet_run L _ _ _ hshared (sampleShared_eq hdh 3 1)]
    rfl

/-- The sessions of that handshake, on the sample edge. -/
def sampleSession (L : LibCrypto) (r : Role) : Session where
  amInitiator := decide (r = .initiator)
  state := sampleRatchet L r
  pq := startRuntime sampleEdge sampleRoot 0 r
  destroyed := false

theorem sampleSession_created (hdh : L.DhLaws) (r : Role) : Created L (sampleSession L r) := by
  refine ⟨rfl, sampleRatchet_bootstrapped hdh r, sampleEdge.pqMode, sampleEdge.binding, sampleRoot,
    ⟨0, Nat.zero_le _⟩, ?_⟩
  have hnew := sample_new r
  cases r <;> exact hnew

end Session

end P2Party
