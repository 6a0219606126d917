import P2Party.Base.OrdMap
import P2Party.Base.Exec
import P2Party.Cryptography.LibCrypto

/-!
# The Double Ratchet (`cryptography/ratchet.ts`)

The ratchet functions as the source computes them, on an explicit `RatchetState`.
A function that mutates its state and may throw is an `EStateM`, so the state a
throw leaves behind is part of the model. Randomness is explicit: the secret of a
freshly generated key pair is an argument. Wiping a buffer that is replaced in
the same breath has no counterpart here.

- `kdfRk`, `kdfCk`: the two key schedules;
- `initRatchet`, `primeResponderRatchet`: the handshake-time set-up;
- `ratchetEncrypt`, `ratchetDecrypt`: one step of the sending and receiving side;
- `skipMessageKeys_run_some`, `dhRatchet_run`: what the two parts of a receive do;
- `serializeRatchet`, `deserializeRatchet`, `cloneRatchet`: the stored form, with
  `cloneRatchet_eq`: a clone of a state with canonical skipped keys is that state.
-/

namespace P2Party

open Base

/-! ## Constants and state -/

/-- `MAX_SKIP` (constants.ts:170). -/
def MAX_SKIP : Nat := 512

/-- `MAX_SKIP_SESSION` (constants.ts:180). -/
def MAX_SKIP_SESSION : Nat := 2000

/-- `RATCHET_DHPUB_LEN` (constants.ts:82). -/
def RATCHET_DHPUB_LEN : Nat := 32

/-- HKDF info strings (ratchet.ts:16-19). -/
def RK_INFO : Bytes := textEncode "p2party-rk-v1"

@[inherit_doc RK_INFO] def CK_INFO : Bytes := textEncode "p2party-ck-v1"

@[inherit_doc RK_INFO] def MK_INFO : Bytes := textEncode "p2party-mk-v1"

/-- `RatchetState` (ratchet.ts:32-45). The counters are exact where the source has doubles. Frames and
rows refuse a counter beyond 2^53 - 1 (chunkFrame.ts:37-57, ratchetWrap.ts:141-143), so the two differ
only for bare calls beyond 2^53 steps. -/
structure RatchetState where
  rootSuite : RatchetRootSuite
  rootKey : Bytes
  sendingChainKey : Option Bytes
  receivingChainKey : Option Bytes
  dhSelfPub : Bytes
  dhSelfSec : Bytes
  dhRemotePub : Option Bytes
  Ns : Nat
  Nr : Nat
  PN : Nat
  skipped : OrdMap String Bytes
deriving DecidableEq

/-- `RatchetHeader` (ratchet.ts:53-57). The counters are integers by type, which
is the check at the top of `ratchetDecrypt`. -/
structure RatchetHeader where
  dhPub : Bytes
  N : Nat
  PN : Nat
deriving DecidableEq, Repr

/-- Code that mutates one ratchet state. -/
abbrev RatchetM := EStateM JsError RatchetState

/-- Key of a skipped message key: hex of the DH public key, a colon, the index
(ratchet.ts:217, 245). -/
def skippedKey (dhPub : Bytes) (n : Nat) : String :=
  String.ofList (hexChars dhPub ++ ':' :: Nat.toDigits 10 n)

/-! ## Key schedules -/

variable (L : LibCrypto)

/-- `kdfRk` (ratchet.ts:103-117): next root and chain key. -/
def kdfRk (rootKey dhOut : Bytes) : Bytes × Bytes :=
  let okm := L.hkdfExpand (L.hkdfExtract rootKey dhOut) RK_INFO 64
  (okm.take 32, (okm.drop 32).take 32)

/-- `kdfCk` (ratchet.ts:123-134): next chain key and message key. -/
def kdfCk (chainKey : Bytes) : Bytes × Bytes :=
  ((L.hkdfExtract chainKey CK_INFO).take 32, (L.hkdfExtract chainKey MK_INFO).take 32)

/-! ## Set-up -/

/-- `initRatchet` (ratchet.ts:151-187), with the secret of its new key pair. -/
def initRatchet (rootSeed : Bytes) (amInitiator : Bool) (remoteDhPub : Option Bytes)
    (rootSuite : RatchetRootSuite) (secretKey : Bytes) : Except JsError RatchetState :=
  let state : RatchetState :=
    { rootSuite := rootSuite
      rootKey := rootSeed
      sendingChainKey := none
      receivingChainKey := none
      dhSelfPub := L.x25519Base secretKey
      dhSelfSec := secretKey
      dhRemotePub := none
      Ns := 0
      Nr := 0
      PN := 0
      skipped := OrdMap.empty }
  if amInitiator then
    match remoteDhPub with
    | none => .error (.error "ratchet: initiator requires remoteDhPub")
    | some remote => do
      let dhOut ← L.x25519Dh state.dhSelfSec remote
      let rk := kdfRk L state.rootKey dhOut
      pure { state with
        dhRemotePub := some remote
        rootKey := rk.1
        sendingChainKey := some rk.2 }
  else
    .ok state

/-! ## Sending -/

/-- `ratchetEncrypt` (ratchet.ts:194-209). -/
def ratchetEncrypt : RatchetM (Bytes × RatchetHeader) := do
  let state ← get
  match state.sendingChainKey with
  | none => throw (.error "ratchet: no sending chain")
  | some chainKey =>
    let (nextChainKey, messageKey) := kdfCk L chainKey
    let header : RatchetHeader := { dhPub := state.dhSelfPub, N := state.Ns, PN := state.PN }
    set { state with sendingChainKey := some nextChainKey, Ns := state.Ns + 1 }
    return (messageKey, header)

/-! ## Receiving -/

/-- `trySkipped` (ratchet.ts:213-224). -/
def trySkipped (header : RatchetHeader) : RatchetM (Option Bytes) := do
  let state ← get
  let key := skippedKey header.dhPub header.N
  match state.skipped.get key with
  | some mk =>
    set { state with skipped := state.skipped.delete key }
    return some mk
  | none => return none

/-- One iteration of the loop of `skipMessageKeys` (ratchet.ts:238-242). The
receiving chain and the remote key are only ever set together. -/
def skipOne (state : RatchetState) : RatchetState :=
  let (chainKey, messageKey) := kdfCk L (state.receivingChainKey.getD [])
  { state with
    receivingChainKey := some chainKey
    skipped := state.skipped.set (skippedKey (state.dhRemotePub.getD []) state.Nr) messageKey
    Nr := state.Nr + 1 }

/-- The loop of `skipMessageKeys`, with the number of iterations left. -/
def skipLoop : Nat → RatchetState → RatchetState
  | 0, state => state
  | n + 1, state => skipLoop n (skipOne L state)

/-- Oldest-first eviction at the end of `skipMessageKeys` (ratchet.ts:251-257). -/
def evictSkipped (state : RatchetState) : RatchetState :=
  { state with
    skipped := OrdMap.evictLoop MAX_SKIP_SESSION state.skipped.keys state.skipped }

/-- `skipMessageKeys` (ratchet.ts:229-258). -/
def skipMessageKeys (upTo : Nat) : RatchetM Unit := do
  let state ← get
  ensure (upTo ≤ state.Nr + MAX_SKIP) (.error "ratchet: MAX_SKIP exceeded")
  match state.receivingChainKey with
  | none => return ()
  | some _ => set (evictSkipped (skipLoop L (upTo - state.Nr) state))

/-- `dhRatchet` (ratchet.ts:265-297), with the secret of the rotated key pair. -/
def dhRatchet (header : RatchetHeader) (secretKey : Bytes) : RatchetM Unit := do
  modify fun state => { state with
    PN := state.Ns
    Ns := 0
    Nr := 0
    dhRemotePub := some header.dhPub }
  let dhOut ← attempt (L.x25519Dh (← get).dhSelfSec header.dhPub)
  modify fun state =>
    let rk := kdfRk L state.rootKey dhOut
    { state with rootKey := rk.1, receivingChainKey := some rk.2 }
  modify fun state => { state with dhSelfPub := L.x25519Base secretKey, dhSelfSec := secretKey }
  let dhOut' ← attempt (L.x25519Dh secretKey header.dhPub)
  modify fun state =>
    let rk := kdfRk L state.rootKey dhOut'
    { state with rootKey := rk.1, sendingChainKey := some rk.2 }

/-- A responder that has neither sent, received nor skipped anything
(ratchet.ts:318-326). -/
def RatchetState.pristine (state : RatchetState) : Bool :=
  state.sendingChainKey.isNone && state.receivingChainKey.isNone && state.dhRemotePub.isNone &&
    state.Ns == 0 && state.Nr == 0 && state.PN == 0 && state.skipped.size == 0

/-- `primeResponderRatchet` (ratchet.ts:311-337). -/
def primeResponderRatchet (initiatorDhPub secretKey : Bytes) : RatchetM Unit := do
  ensure (initiatorDhPub.length = RATCHET_DHPUB_LEN)
    (.error "ratchet: invalid initiator DH public key")
  ensure ((← get).pristine = true)
    (.error "ratchet: responder bootstrap requires pristine state")
  dhRatchet L { dhPub := initiatorDhPub, N := 0, PN := 0 } secretKey

/-- Whether a header names a DH public key other than the current remote one
(ratchet.ts:381-382). -/
def RatchetState.isNewDh (state : RatchetState) (header : RatchetHeader) : Bool :=
  state.dhRemotePub != some header.dhPub

/-- The last step of a receive (ratchet.ts:388-398): check the index, skip the
gap, derive one key of the receiving chain. -/
def receiveFromChain (header : RatchetHeader) : RatchetM Bytes := do
  ensure ((← get).Nr ≤ header.N) (.error "ratchet: message key already consumed")
  skipMessageKeys L header.N
  let state ← get
  match state.receivingChainKey with
  | none => throw (.typeError "Cannot read properties of null (reading 'length')")
  | some chainKey =>
    let (nextChainKey, messageKey) := kdfCk L chainKey
    set { state with receivingChainKey := some nextChainKey, Nr := state.Nr + 1 }
    return messageKey

/-- `ratchetDecrypt` (ratchet.ts:367-399), with the secret a DH step would use. -/
def ratchetDecrypt (header : RatchetHeader) (secretKey : Bytes) : RatchetM Bytes := do
  match ← trySkipped header with
  | some messageKey => return messageKey
  | none =>
    if (← get).isNewDh header then
      skipMessageKeys L header.PN
      dhRatchet L header secretKey
    receiveFromChain L header

/-! ## Stored form -/

/-- One entry of `RatchetSessionSecrets.skippedMessageKeys` (ratchet.ts:76-80). -/
structure SkippedMessageKey where
  dhPub : Bytes
  n : Nat
  messageKey : Bytes
deriving DecidableEq

/-- `RatchetSessionSecrets` (ratchet.ts:65-81). -/
structure RatchetSessionSecrets where
  rootSuite : RatchetRootSuite
  rootKey : Bytes
  sendingChainKey : Option Bytes
  receivingChainKey : Option Bytes
  dhSelfPub : Bytes
  dhSelfSec : Bytes
  dhRemotePub : Option Bytes
  Ns : Nat
  Nr : Nat
  PN : Nat
  skippedMessageKeys : List SkippedMessageKey
deriving DecidableEq

/-- Split a skipped-map key at its last colon (ratchet.ts:425-430). -/
def splitSkippedKey (key : String) : Bytes × Nat :=
  let reversed := key.toList.reverse
  let index := (reversed.takeWhile (· ≠ ':')).reverse
  let hex := ((reversed.dropWhile (· ≠ ':')).drop 1).reverse
  (hexDecode hex, Nat.ofDigitChars 10 index 0)

/-- `serializeRatchet` (ratchet.ts:411-433). -/
def serializeRatchet (state : RatchetState) : RatchetSessionSecrets where
  rootSuite := state.rootSuite
  rootKey := state.rootKey
  sendingChainKey := state.sendingChainKey
  receivingChainKey := state.receivingChainKey
  dhSelfPub := state.dhSelfPub
  dhSelfSec := state.dhSelfSec
  dhRemotePub := state.dhRemotePub
  Ns := state.Ns
  Nr := state.Nr
  PN := state.PN
  skippedMessageKeys := state.skipped.entries.map fun e =>
    { dhPub := (splitSkippedKey e.1).1, n := (splitSkippedKey e.1).2, messageKey := e.2 }

/-- `deserializeRatchet` (ratchet.ts:436-460). -/
def deserializeRatchet (s : RatchetSessionSecrets) : RatchetState where
  rootSuite := s.rootSuite
  rootKey := s.rootKey
  sendingChainKey := s.sendingChainKey
  receivingChainKey := s.receivingChainKey
  dhSelfPub := s.dhSelfPub
  dhSelfSec := s.dhSelfSec
  dhRemotePub := s.dhRemotePub
  Ns := s.Ns
  Nr := s.Nr
  PN := s.PN
  skipped := OrdMap.ofList
    (s.skippedMessageKeys.map fun e => (skippedKey e.dhPub e.n, e.messageKey))

/-- `cloneRatchet` (ratchet.ts:463-464). -/
def cloneRatchet (state : RatchetState) : RatchetState :=
  deserializeRatchet (serializeRatchet state)

/-- `wipeRatchet` (ratchet.ts:464-470): every secret is overwritten with zeros. -/
def wipeRatchet (state : RatchetState) : RatchetState :=
  let zeros : Bytes → Bytes := fun bs => List.replicate bs.length 0
  { state with
    rootKey := zeros state.rootKey
    sendingChainKey := state.sendingChainKey.map zeros
    receivingChainKey := state.receivingChainKey.map zeros
    dhSelfSec := zeros state.dhSelfSec
    skipped := ⟨state.skipped.entries.map fun e => (e.1, zeros e.2), by
      rw [List.map_map]
      exact state.skipped.nodup⟩ }

/-! ## Skipped-map keys -/

theorem skippedKey_inj {a b : Bytes} {m n : Nat} :
    skippedKey a m = skippedKey b n ↔ a = b ∧ m = n := by
  constructor
  · intro h
    obtain ⟨rfl, hdigits⟩ := hexChars_colon_inj (String.ofList_injective h)
    exact ⟨rfl, toDigits_injective hdigits⟩
  · rintro ⟨rfl, rfl⟩
    rfl

theorem splitSkippedKey_skippedKey (dhPub : Bytes) (n : Nat) :
    splitSkippedKey (skippedKey dhPub n) = (dhPub, n) := by
  have hrev : (skippedKey dhPub n).toList.reverse =
      (Nat.toDigits 10 n).reverse ++ ':' :: (hexChars dhPub).reverse := by
    simp [skippedKey]
  have hdigits : ∀ c ∈ (Nat.toDigits 10 n).reverse, decide (c ≠ ':') = true := by
    intro c hc
    rw [List.mem_reverse] at hc
    exact decide_eq_true fun h => colon_notMem_toDigits n (h ▸ hc)
  rw [splitSkippedKey, hrev]
  simp only [List.takeWhile_append_of_pos hdigits, List.dropWhile_append_of_pos hdigits]
  simp [Nat.ofDigitChars_ten_toDigits]

/-- Every skipped key is spelled the way `skipMessageKeys` spells it. -/
def RatchetState.Canonical (state : RatchetState) : Prop :=
  ∀ e ∈ state.skipped.entries, ∃ dhPub n, e.1 = skippedKey dhPub n

/-- Cloning through the stored form reproduces a canonical state. -/
theorem cloneRatchet_eq {state : RatchetState} (h : state.Canonical) :
    cloneRatchet state = state := by
  have hentries : state.skipped.entries.map
      (fun e => (skippedKey (splitSkippedKey e.1).1 (splitSkippedKey e.1).2, e.2)) =
      state.skipped.entries := by
    conv_rhs => rw [← List.map_id state.skipped.entries]
    refine List.map_congr_left fun e he => ?_
    obtain ⟨dhPub, n, hkey⟩ := h e he
    rw [hkey, splitSkippedKey_skippedKey, ← hkey]
    rfl
  have hskipped : (cloneRatchet state).skipped = state.skipped := by
    show OrdMap.ofList (List.map _ (List.map _ _)) = _
    rw [List.map_map, Function.comp_def, hentries, OrdMap.ofList_entries]
  calc cloneRatchet state = { state with skipped := (cloneRatchet state).skipped } := rfl
    _ = state := by rw [hskipped]

/-! ## Running the parts of a receive -/

/-- Chain key after `n` steps of a chain. -/
def chainKeyAt (chainKey : Bytes) : Nat → Bytes
  | 0 => chainKey
  | n + 1 => (kdfCk L (chainKeyAt chainKey n)).1

/-- Message key `n` of a chain. -/
def messageKeyAt (chainKey : Bytes) (n : Nat) : Bytes :=
  (kdfCk L (chainKeyAt L chainKey n)).2

theorem ratchetEncrypt_run {state : RatchetState} {chainKey : Bytes}
    (h : state.sendingChainKey = some chainKey) :
    (ratchetEncrypt L).run state =
      .ok ((kdfCk L chainKey).2, ⟨state.dhSelfPub, state.Ns, state.PN⟩)
        { state with sendingChainKey := some (kdfCk L chainKey).1, Ns := state.Ns + 1 } := by
  simp [ratchetEncrypt, h]

theorem trySkipped_run_hit {state : RatchetState} {header : RatchetHeader} {mk : Bytes}
    (h : state.skipped.get (skippedKey header.dhPub header.N) = some mk) :
    (trySkipped header).run state =
      .ok (some mk) { state with
        skipped := state.skipped.delete (skippedKey header.dhPub header.N) } := by
  simp [trySkipped, h]

theorem trySkipped_run_miss {state : RatchetState} {header : RatchetHeader}
    (h : state.skipped.get (skippedKey header.dhPub header.N) = none) :
    (trySkipped header).run state = .ok none state := by
  simp [trySkipped, h]

/-- The closed form of the loop: the chain moved `n` steps on, every key it passed
is in the map under its index, and nothing else changed. -/
theorem skipLoop_spec {pub chainKey : Bytes} (n : Nat) {state : RatchetState}
    (hremote : state.dhRemotePub = some pub)
    (hchain : state.receivingChainKey = some (chainKeyAt L chainKey state.Nr)) :
    ∃ skipped : OrdMap String Bytes,
      skipLoop L n state = { state with
        receivingChainKey := some (chainKeyAt L chainKey (state.Nr + n))
        Nr := state.Nr + n
        skipped := skipped } ∧
      (∀ i, state.Nr ≤ i → i < state.Nr + n →
        skipped.get (skippedKey pub i) = some (messageKeyAt L chainKey i)) ∧
      (∀ key, (∀ i, state.Nr ≤ i → i < state.Nr + n → key ≠ skippedKey pub i) →
        skipped.get key = state.skipped.get key) ∧
      skipped.size ≤ state.skipped.size + n := by
  induction n generalizing state with
  | zero =>
    refine ⟨state.skipped, ?_, fun i h1 h2 => by omega, fun _ _ => rfl, Nat.le_refl _⟩
    rw [skipLoop, Nat.add_zero, ← hchain]
  | succ n ih =>
    have hone : skipOne L state = { state with
        receivingChainKey := some (chainKeyAt L chainKey (state.Nr + 1))
        skipped := state.skipped.set (skippedKey pub state.Nr)
          (messageKeyAt L chainKey state.Nr)
        Nr := state.Nr + 1 } := by
      simp [skipOne, hchain, hremote, chainKeyAt, messageKeyAt]
    obtain ⟨skipped, heq, hget, hother, hsize⟩ :=
      @ih (skipOne L state) (by rw [hone]; exact hremote) (by rw [hone])
    rw [hone] at heq hget hother hsize
    refine ⟨skipped, ?_, ?_, ?_, ?_⟩
    · rw [skipLoop, hone, heq]
      simp only [Nat.add_assoc, Nat.add_comm 1 n]
    · intro i h1 h2
      by_cases hi : i = state.Nr
      · -- the key stored by the first iteration is not touched by the later ones
        subst hi
        rw [hother _ fun j h3 _ h5 => by
          have := (skippedKey_inj.mp h5).2
          simp only at h3
          omega]
        exact OrdMap.get_set_self _ _ _
      · exact hget i (by simp only; omega) (by simp only; omega)
    · intro key hkey
      rw [hother key fun i h1 h2 => hkey i (by simp only at h1; omega) (by simp only at h2; omega)]
      exact OrdMap.get_set_ne _ _ (hkey state.Nr (Nat.le_refl _) (by omega))
    · have := OrdMap.size_set_le state.skipped (skippedKey pub state.Nr)
        (messageKeyAt L chainKey state.Nr)
      simp only at hsize
      omega

/-- Within the session bound nothing is evicted. -/
theorem evictSkipped_of_size_le {state : RatchetState} (h : state.skipped.size ≤ MAX_SKIP_SESSION) :
    evictSkipped state = state := by
  rw [evictSkipped, OrdMap.evictLoop_of_size_le _ h]

theorem skipMessageKeys_run_none {state : RatchetState} {upTo : Nat}
    (hskip : upTo ≤ state.Nr + MAX_SKIP) (hchain : state.receivingChainKey = none) :
    (skipMessageKeys L upTo).run state = .ok () state := by
  simp [skipMessageKeys, hskip, hchain]

theorem skipMessageKeys_run_some {state : RatchetState} {upTo : Nat} {chainKey : Bytes}
    (hskip : upTo ≤ state.Nr + MAX_SKIP) (hchain : state.receivingChainKey = some chainKey) :
    (skipMessageKeys L upTo).run state =
      .ok () (evictSkipped (skipLoop L (upTo - state.Nr) state)) := by
  simp [skipMessageKeys, hskip, hchain]

/-- A DH step with both agreements defined. -/
theorem dhRatchet_run (state : RatchetState) (header : RatchetHeader) (secretKey : Bytes)
    {dhOut dhOut' : Bytes}
    (h : L.x25519Scalarmult state.dhSelfSec header.dhPub = some dhOut)
    (h' : L.x25519Scalarmult secretKey header.dhPub = some dhOut') :
    (dhRatchet L header secretKey).run state =
      .ok () { state with
        PN := state.Ns
        Ns := 0
        Nr := 0
        dhRemotePub := some header.dhPub
        receivingChainKey := some (kdfRk L state.rootKey dhOut).2
        dhSelfPub := L.x25519Base secretKey
        dhSelfSec := secretKey
        rootKey := (kdfRk L (kdfRk L state.rootKey dhOut).1 dhOut').1
        sendingChainKey := some (kdfRk L (kdfRk L state.rootKey dhOut).1 dhOut').2 } := by
  simp [dhRatchet, LibCrypto.x25519Dh, h, h']

/-- Priming a pristine responder is a DH step towards the initiator's key. -/
theorem primeResponderRatchet_run {state : RatchetState} {initiatorDhPub secretKey : Bytes}
    (hlen : initiatorDhPub.length = RATCHET_DHPUB_LEN) (hpristine : state.pristine = true) :
    (primeResponderRatchet L initiatorDhPub secretKey).run state =
      (dhRatchet L ⟨initiatorDhPub, 0, 0⟩ secretKey).run state := by
  simp [primeResponderRatchet, hlen, hpristine]

/-- Receiving from an open chain within the bounds: the gap is stored, the key at
the header's index is returned, and the chain stands one past it. -/
theorem receiveFromChain_run {pub chainKey : Bytes} {state : RatchetState}
    (header : RatchetHeader) (hremote : state.dhRemotePub = some pub)
    (hchain : state.receivingChainKey = some (chainKeyAt L chainKey state.Nr))
    (hN : state.Nr ≤ header.N) (hskip : header.N ≤ state.Nr + MAX_SKIP)
    (hsize : state.skipped.size + (header.N - state.Nr) ≤ MAX_SKIP_SESSION) :
    ∃ skipped : OrdMap String Bytes,
      (receiveFromChain L header).run state =
        .ok (messageKeyAt L chainKey header.N) { state with
          receivingChainKey := some (chainKeyAt L chainKey (header.N + 1))
          Nr := header.N + 1
          skipped := skipped } ∧
      (∀ i, state.Nr ≤ i → i < header.N →
        skipped.get (skippedKey pub i) = some (messageKeyAt L chainKey i)) ∧
      (∀ key, (∀ i, state.Nr ≤ i → i < header.N → key ≠ skippedKey pub i) →
        skipped.get key = state.skipped.get key) := by
  obtain ⟨skipped, hloop, hget, hother, hle⟩ :=
    skipLoop_spec L (header.N - state.Nr) hremote hchain
  have hend : state.Nr + (header.N - state.Nr) = header.N := by omega
  rw [hend] at hloop hget hother
  refine ⟨skipped, ?_, hget, hother⟩
  have hskipRun : (skipMessageKeys L header.N).run state = .ok () { state with
      receivingChainKey := some (chainKeyAt L chainKey header.N)
      Nr := header.N
      skipped := skipped } := by
    rw [skipMessageKeys_run_some L hskip hchain, hloop, evictSkipped_of_size_le]
    exact Nat.le_trans hle hsize
  simp [receiveFromChain, hN, hskipRun, chainKeyAt, messageKeyAt]

/-! ## The three ways through `ratchetDecrypt` -/

theorem ratchetDecrypt_run_hit {state : RatchetState} {header : RatchetHeader}
    {secretKey mk : Bytes} (h : state.skipped.get (skippedKey header.dhPub header.N) = some mk) :
    (ratchetDecrypt L header secretKey).run state =
      .ok mk { state with
        skipped := state.skipped.delete (skippedKey header.dhPub header.N) } := by
  simp [ratchetDecrypt, trySkipped_run_hit h]

theorem ratchetDecrypt_run_current {state : RatchetState} {header : RatchetHeader}
    {secretKey : Bytes} (h : state.skipped.get (skippedKey header.dhPub header.N) = none)
    (hdh : state.isNewDh header = false) :
    (ratchetDecrypt L header secretKey).run state = (receiveFromChain L header).run state := by
  simp [ratchetDecrypt, trySkipped_run_miss h, hdh]

theorem ratchetDecrypt_run_newDh {state state' state'' : RatchetState} {header : RatchetHeader}
    {secretKey : Bytes} (h : state.skipped.get (skippedKey header.dhPub header.N) = none)
    (hdh : state.isNewDh header = true)
    (hskip : (skipMessageKeys L header.PN).run state = .ok () state')
    (hstep : (dhRatchet L header secretKey).run state' = .ok () state'') :
    (ratchetDecrypt L header secretKey).run state = (receiveFromChain L header).run state'' := by
  simp [ratchetDecrypt, trySkipped_run_miss h, hdh, hskip, hstep]

end P2Party
