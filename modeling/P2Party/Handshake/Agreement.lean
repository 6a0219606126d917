import P2Party.Handshake.Core

/-!
# Agreement of two honest sides

Two parameter sets that describe one session from opposite roles: over a reliable ordered
transport both sides return, with one root, one bootstrap of PQ healing and ratchets that
fit together.

- `packHello_eq`, `parseHello_helloBytes`: a HELLO arrives as it was sent;
- `Matching`, `Drawn`: what the two sides share, and what the primitives give them;
- `sessions_agree`: both derive one session;
- `handshake_agreement`: every run ends with both returned.
-/

namespace P2Party

open Base PqHealing PqHealingRuntime

namespace Handshake

variable {L : HandshakeCrypto} {suite : MlKemParameterSet} {hello : Hello}

/-! ## The wire -/

/-- The lengths of the fields of a HELLO. -/
structure HelloFits (suite : MlKemParameterSet) (hello : Hello) : Prop where
  sid : hello.sid.length = DH_LEN
  ek : hello.ek.length = DH_LEN
  y : hello.y.length = DH_LEN
  x25519Pub : hello.x25519Pub.length = DH_LEN
  crossSig : hello.crossSig.length = MAC_LEN
  mlKemPublicKey : hello.mlKemPublicKey.length = suite.publicKeyBytes
  mlKemCiphertext : hello.mlKemCiphertext.length = suite.ciphertextBytes

/-- The bytes of a HELLO. -/
def helloBytes (hello : Hello) : Bytes :=
  [HS_STEP_HELLO] ++ (hello.sid ++ (hello.ek ++ (hello.y ++ (hello.x25519Pub ++ (hello.crossSig ++
    (hello.mlKemPublicKey ++ hello.mlKemCiphertext))))))

/-- A field set at the end of what is written. -/
theorem setAt_written {written field : Bytes} {offset n : Nat} (hoffset : written.length = offset)
    (hfits : field.length ≤ n) :
    setAt (written ++ List.replicate n 0) field offset =
      .ok (written ++ field ++ List.replicate (n - field.length) 0) := by
  unfold setAt
  rw [if_pos (by rw [List.length_append, List.length_replicate, hoffset]; omega)]
  rw [List.take_left' hoffset, List.drop_append, hoffset, List.drop_of_length_le (by omega),
    List.nil_append, List.drop_replicate]
  congr 3
  omega

theorem packHello_eq (h : HelloFits suite hello) :
    packHello suite hello = .ok (helloBytes hello) := by
  have hstart : HS_STEP_HELLO :: List.replicate (helloLength suite - 1) (0 : UInt8) =
      [HS_STEP_HELLO] ++ List.replicate (192 + suite.publicKeyBytes + suite.ciphertextBytes) 0 := by
    have hlength : helloLength suite - 1 = 192 + suite.publicKeyBytes + suite.ciphertextBytes := by
      unfold helloLength
      simp only [HELLO_ML_KEM_PUBLIC_KEY_OFF]
      omega
    rw [hlength]
    rfl
  obtain ⟨hsid, hek, hy, hpub, hsig, hkey, hct⟩ := h
  unfold packHello
  simp only [hstart]
  -- every field starts where the fields before it end
  have h1 := @setAt_written [HS_STEP_HELLO] hello.sid 1
    (192 + suite.publicKeyBytes + suite.ciphertextBytes) rfl (by rw [hsid]; simp only [DH_LEN]; omega)
  rw [h1, ok_bind, hsid]
  rw [setAt_written (by simp [hsid]) (by rw [hek]; simp only [DH_LEN]; omega), ok_bind, hek]
  rw [setAt_written (by simp [hsid, hek, DH_LEN]) (by rw [hy]; simp only [DH_LEN]; omega), ok_bind, hy]
  rw [setAt_written (by simp [hsid, hek, hy, DH_LEN]) (by rw [hpub]; simp only [DH_LEN]; omega),
    ok_bind, hpub]
  rw [setAt_written (by simp [hsid, hek, hy, hpub, DH_LEN])
    (by rw [hsig]; simp only [DH_LEN, MAC_LEN]; omega), ok_bind, hsig]
  rw [setAt_written (by simp [hsid, hek, hy, hpub, hsig, DH_LEN, MAC_LEN])
    (by rw [hkey]; simp only [DH_LEN, MAC_LEN]; omega), ok_bind, hkey]
  rw [setAt_written (by simp [hsid, hek, hy, hpub, hsig, hkey, DH_LEN, MAC_LEN, HELLO_ML_KEM_PUBLIC_KEY_OFF]; omega)
    (by rw [hct]; simp only [DH_LEN, MAC_LEN]; omega), hct]
  simp [helloBytes, DH_LEN, MAC_LEN]
  omega

theorem length_helloBytes (h : HelloFits suite hello) :
    (helloBytes hello).length = helloLength suite := by
  unfold helloBytes helloLength
  simp only [List.length_append, List.length_singleton, h.sid, h.ek, h.y, h.x25519Pub, h.crossSig,
    h.mlKemPublicKey, h.mlKemCiphertext, DH_LEN, MAC_LEN, HELLO_ML_KEM_PUBLIC_KEY_OFF]
  omega

theorem parseHello_helloBytes (h : HelloFits suite hello) :
    parseHello suite (helloBytes hello) = .ok hello := by
  have hlength := length_helloBytes h
  obtain ⟨hsid, hek, hy, hpub, hsig, hkey, hct⟩ := h
  have hsidAt : slice (helloBytes hello) 1 32 = hello.sid := slice_append rfl hsid
  have hekAt : slice (helloBytes hello) 33 32 = hello.ek := by
    unfold helloBytes
    rw [← List.append_assoc]
    exact slice_append (by simp [hsid]) hek
  have hyAt : slice (helloBytes hello) 65 32 = hello.y := by
    unfold helloBytes
    rw [← List.append_assoc, ← List.append_assoc]
    exact slice_append (by simp [hsid, hek, DH_LEN]) hy
  have hpubAt : slice (helloBytes hello) 97 32 = hello.x25519Pub := by
    unfold helloBytes
    rw [← List.append_assoc, ← List.append_assoc, ← List.append_assoc]
    exact slice_append (by simp [hsid, hek, hy, DH_LEN]) hpub
  have hsigAt : slice (helloBytes hello) 129 64 = hello.crossSig := by
    unfold helloBytes
    rw [← List.append_assoc, ← List.append_assoc, ← List.append_assoc, ← List.append_assoc]
    exact slice_append (by simp [hsid, hek, hy, hpub, DH_LEN]) hsig
  have hkeyAt : slice (helloBytes hello) 193 suite.publicKeyBytes = hello.mlKemPublicKey := by
    unfold helloBytes
    rw [← List.append_assoc, ← List.append_assoc, ← List.append_assoc, ← List.append_assoc,
      ← List.append_assoc]
    exact slice_append (by simp [hsid, hek, hy, hpub, hsig, DH_LEN, MAC_LEN]) hkey
  have hctAt : slice (helloBytes hello) (193 + suite.publicKeyBytes) suite.ciphertextBytes =
      hello.mlKemCiphertext := by
    unfold helloBytes
    rw [← List.append_assoc, ← List.append_assoc, ← List.append_assoc, ← List.append_assoc,
      ← List.append_assoc, ← List.append_assoc]
    have hslice := @slice_append ([HS_STEP_HELLO] ++ hello.sid ++ hello.ek ++ hello.y ++
      hello.x25519Pub ++ hello.crossSig ++ hello.mlKemPublicKey) hello.mlKemCiphertext []
      (193 + suite.publicKeyBytes) suite.ciphertextBytes
      (by simp [hsid, hek, hy, hpub, hsig, hkey, DH_LEN, MAC_LEN]; omega) hct
    rw [List.append_nil] at hslice
    exact hslice
  unfold parseHello
  rw [demand_of ⟨hlength, rfl⟩, ok_bind, hsidAt, hekAt, hyAt, hpubAt, hsigAt, hkeyAt, hctAt]
  rfl

theorem parseConfirm_packConfirm {dhPub mac : Bytes} (hdh : dhPub.length = DH_LEN)
    (hmac : mac.length = MAC_LEN) : parseConfirm (packConfirm dhPub mac) = .ok (dhPub, mac) := by
  have hlength : (packConfirm dhPub mac).length = CONFIRM_LEN := by
    unfold packConfirm
    rw [List.length_cons, List.length_append, hdh, hmac]
    rfl
  have hdhAt : slice (packConfirm dhPub mac) 1 DH_LEN = dhPub :=
    @slice_append [HS_STEP_CONFIRM] dhPub mac 1 DH_LEN rfl hdh
  have hmacAt : slice (packConfirm dhPub mac) 33 MAC_LEN = mac := by
    have hslice := @slice_append (HS_STEP_CONFIRM :: dhPub) mac [] 33 MAC_LEN
      (by rw [List.length_cons, hdh]) hmac
    rw [List.append_nil] at hslice
    exact hslice
  unfold parseConfirm
  rw [demand_of ⟨hlength, rfl⟩, ok_bind, hdhAt, hmacAt]
  rfl

theorem parseFinish_packFinish {mac : Bytes} (hmac : mac.length = MAC_LEN) :
    parseFinish (packFinish mac) = .ok mac := by
  have hlength : (packFinish mac).length = FINISH_LEN := by
    unfold packFinish
    rw [List.length_cons, hmac]
  have hmacAt : slice (packFinish mac) 1 MAC_LEN = mac := by
    have hslice := @slice_append [HS_STEP_FINISH] mac [] 1 MAC_LEN rfl hmac
    rw [List.append_nil] at hslice
    exact hslice
  unfold parseFinish
  rw [demand_of ⟨hlength, rfl⟩, ok_bind, hmacAt]
  rfl

/-! ## What the two sides share -/

/-- Two parameter sets that describe one session from opposite roles, with identities whose
cross-signatures verify. -/
structure Matching (L : HandshakeCrypto) (pI pR : HandshakeCoreParams) : Prop where
  initiator : pI.amInitiator = true
  responder : pR.amInitiator = false
  mode : pR.mode = pI.mode
  pqMode : pR.pqMode = pI.pqMode
  pin : pR.pin = pI.pin
  channelInput : pR.channelInput = pI.channelInput
  pinGiven : pI.mode = .pin → pI.pin.isSome = true
  identityI : pI.selfIdentityX25519Pub = L.x25519Base pI.idSelfSec
  identityR : pR.selfIdentityX25519Pub = L.x25519Base pR.idSelfSec
  lengthI : pI.selfIdentityCrossSignature.length = MAC_LEN
  lengthR : pR.selfIdentityCrossSignature.length = MAC_LEN
  verifiesI : verifyIdentityCrossSig L pI.selfIdentityX25519Pub pI.selfIdentityCrossSignature
    pR.peerIdentityEd25519Pub = true
  verifiesR : verifyIdentityCrossSig L pR.selfIdentityX25519Pub pR.selfIdentityCrossSignature
    pI.peerIdentityEd25519Pub = true

/-- CPace correctness: two shares of one generator lead to one point. -/
structure CpaceLaws (L : HandshakeCrypto) : Prop where
  correct : ∀ a b hash shareA shareB,
    L.ristretto255Scalarmult a (L.ristretto255FromHash hash) = some shareA →
    L.ristretto255Scalarmult b (L.ristretto255FromHash hash) = some shareB →
    ∃ k, L.ristretto255Scalarmult a shareB = some k ∧ L.ristretto255Scalarmult b shareA = some k

/-- What the primitives give the two sides: an ML-KEM key pair and a ciphertext that are not
all zero, CPace shares that are not the identity, and a responder whose second ratchet key is
not its first. -/
structure Drawn (L : HandshakeCrypto) (pI : HandshakeCoreParams) (cI cR : HandshakeCoins) : Prop where
  keyPair : ∃ pk sk, L.mlkemKeypair (roomPqModeToParameterSet pI.pqMode) cI.kem = .ok (pk, sk) ∧
    allZero pk = false ∧
    ∀ ct ss, L.mlkemEncaps (roomPqModeToParameterSet pI.pqMode) pk cR.kem = .ok (ct, ss) →
      allZero ct = false
  shares : ∀ pin, pI.pin = some pin → ∀ c ∈ [cI, cR], (L.ristretto255Scalarmult c.scalar.val
    (deriveGenerator L pin cI.sid.val pI.channelInput)).isSome = true
  fresh : L.x25519Base cR.prime ≠ L.x25519Base cR.dh

/-- The values of one exchange of HELLO flights. -/
structure Exchange (L : HandshakeCrypto) (pI pR : HandshakeCoreParams) (cI cR : HandshakeCoins) where
  suite : MlKemParameterSet
  pk : Bytes
  sk : Bytes
  ct : Bytes
  ss : Bytes
  shareI : Option Bytes
  shareR : Option Bytes
  suiteI : roomPqModeToParameterSet pI.pqMode = suite
  suiteR : roomPqModeToParameterSet pR.pqMode = suite
  keyPair : L.mlkemKeypair suite cI.kem = .ok (pk, sk)
  encaps : L.mlkemEncaps suite pk cR.kem = .ok (ct, ss)
  decaps : L.mlkemDecaps suite ct sk = .ok ss
  pk_nonzero : allZero pk = false
  ct_nonzero : allZero ct = false
  startI : startCpace L pI cI cI.sid.val = .ok shareI
  startR : startCpace L pR cR cI.sid.val = .ok shareR

namespace Exchange

variable {pI pR : HandshakeCoreParams} {cI cR : HandshakeCoins} (e : Exchange L pI pR cI cR)

/-- The initiator's HELLO. -/
def helloI : Hello :=
  buildHello L pI cI e.shareI e.pk (List.replicate e.suite.ciphertextBytes 0)

/-- The responder's HELLO. -/
def helloR : Hello :=
  buildHello L pR cR e.shareR (List.replicate e.suite.publicKeyBytes 0) e.ct

end Exchange

/-! ### HELLO flights -/

variable {pI pR params : HandshakeCoreParams} {cI cR coins : HandshakeCoins}

theorem length_cpaceStart {generator scalar share : Bytes}
    (h : cpaceStart L generator scalar = .ok share) : share.length = 32 := by
  unfold cpaceStart at h
  rw [demand_bind] at h
  split at h
  · split at h
    · obtain rfl := Except.ok.inj h
      exact L.length_ristretto255Scalarmult _ _ _ ‹_›
    · cases h
  · cases h

theorem length_startCpace {sid : Bytes} {share : Option Bytes}
    (h : startCpace L params coins sid = .ok share) :
    (share.getD (List.replicate 32 0)).length = 32 := by
  unfold startCpace at h
  split at h
  · obtain rfl := Except.ok.inj h
    rfl
  · split at h
    · cases h
    · obtain ⟨y, hy, hshare⟩ := except_bind_eq_ok.mp h
      obtain rfl := Except.ok.inj hshare
      exact length_cpaceStart hy

theorem allZero_replicate (n : Nat) : allZero (List.replicate n 0) = true := by
  unfold allZero
  rw [List.all_eq_true]
  intro b hb
  rw [List.eq_of_mem_replicate hb]
  rfl

theorem buildHello_fits {sid : Bytes} {share : Option Bytes} {pk ct : Bytes}
    (hpub : params.selfIdentityX25519Pub.length = DH_LEN)
    (hsig : params.selfIdentityCrossSignature.length = MAC_LEN)
    (hshare : startCpace L params coins sid = .ok share)
    (hpk : pk.length = suite.publicKeyBytes) (hct : ct.length = suite.ciphertextBytes) :
    HelloFits suite (buildHello L params coins share pk ct) where
  sid := coins.sid.property
  ek := L.length_x25519Base _
  y := length_startCpace hshare
  x25519Pub := hpub
  crossSig := hsig
  mlKemPublicKey := hpk
  mlKemCiphertext := hct

/-- A HELLO of the other role with a verified identity is taken as it was sent. -/
theorem takeHello_helloBytes (hfits : HelloFits (roomPqModeToParameterSet params.pqMode) hello)
    (hcanonical : checkCanonical params.amInitiator hello = .ok ())
    (hverifies : verifyIdentityCrossSig L hello.x25519Pub hello.crossSig
      params.peerIdentityEd25519Pub = true) :
    takeHello L params (helloBytes hello) = .ok hello := by
  unfold takeHello
  rw [parseHello_helloBytes hfits, ok_bind, hcanonical, ok_bind, demand_of hverifies, ok_bind]
  rfl

theorem length_deriveGenerator (pin sid channelInput : Bytes) :
    (deriveGenerator L pin sid channelInput).length = 32 :=
  L.length_ristretto255FromHash _

/-- A side whose CPace share is defined starts CPace. -/
theorem startCpace_ok {sid : Bytes} (hpin : params.mode = .pin → params.pin.isSome = true)
    (hshare : ∀ pin, params.pin = some pin → (L.ristretto255Scalarmult coins.scalar.val
      (deriveGenerator L pin sid params.channelInput)).isSome = true) :
    ∃ share, startCpace L params coins sid = .ok share := by
  unfold startCpace
  cases hmode : params.mode with
  | nopin => exact ⟨none, rfl⟩
  | pin =>
    obtain ⟨pin, hsome⟩ := Option.isSome_iff_exists.mp (hpin hmode)
    obtain ⟨share, hmult⟩ := Option.isSome_iff_exists.mp (hshare pin hsome)
    refine ⟨some share, ?_⟩
    have hstart : cpaceStart L (deriveGenerator L pin sid params.channelInput) coins.scalar.val =
        .ok share := by
      unfold cpaceStart
      rw [demand_of (length_deriveGenerator _ _ _), ok_bind, hmult]
      rfl
    simp only [hsome, hstart]
    rfl

/-- In PIN mode a started CPace has a share of the PIN's generator. -/
theorem startCpace_pin {sid : Bytes} {share : Option Bytes} (hmode : params.mode = .pin)
    (h : startCpace L params coins sid = .ok share) :
    ∃ pin y, params.pin = some pin ∧ share = some y ∧ L.ristretto255Scalarmult coins.scalar.val
      (deriveGenerator L pin sid params.channelInput) = some y := by
  unfold startCpace at h
  rw [hmode] at h
  cases hpin : params.pin with
  | none =>
    rw [hpin] at h
    cases h
  | some pin =>
    rw [hpin] at h
    obtain ⟨y, hy, hshare⟩ := except_bind_eq_ok.mp h
    refine ⟨pin, y, rfl, (Except.ok.inj hshare).symm, ?_⟩
    unfold cpaceStart at hy
    rw [demand_of (length_deriveGenerator _ _ _), ok_bind] at hy
    split at hy
    case h_1 share hmult => rw [hmult, Except.ok.inj hy]
    case h_2 => cases hy

/-- CPace finished with a peer share that is valid. -/
theorem cpaceFinish_ok {y peerShare sid shareI shareR k : Bytes} (hy : y.length = 32)
    (hpeer : peerShare.length = 32) (hI : shareI.length = 32) (hR : shareR.length = 32)
    (hk : L.ristretto255Scalarmult y peerShare = some k) :
    cpaceFinish L y peerShare sid shareI shareR =
      .ok (sha512LvConcat L [CPACE_ISK_DSI_BYTES, sid, k, shareI, [], shareR, []]) := by
  unfold cpaceFinish
  rw [demand_of hy, ok_bind, demand_of hpeer, ok_bind, demand_of hI, ok_bind, demand_of hR, ok_bind, hk]
  rfl

/-- Matching sides exchange HELLO flights. -/
theorem exchange_exists (hkem : L.toLibCrypto.KemLaws) (hmatch : Matching L pI pR)
    (hdrawn : Drawn L pI cI cR) : Nonempty (Exchange L pI pR cI cR) := by
  obtain ⟨pk, sk, hpair, hpk, hnonzero⟩ := hdrawn.keyPair
  obtain ⟨ct, ss, hencaps, hdecaps⟩ := hkem.correct _ _ _ _ cR.kem hpair
  obtain ⟨shareI, hshareI⟩ := @startCpace_ok L pI cI cI.sid.val hmatch.pinGiven
    fun pin hpin => hdrawn.shares pin hpin cI (by simp)
  obtain ⟨shareR, hshareR⟩ := @startCpace_ok L pR cR cI.sid.val
    (by rw [hmatch.mode, hmatch.pin]; exact hmatch.pinGiven)
    (by
      intro pin hpin
      rw [hmatch.pin] at hpin
      rw [hmatch.channelInput]
      exact hdrawn.shares pin hpin cR (by simp))
  exact ⟨{
    suite := roomPqModeToParameterSet pI.pqMode
    pk := pk, sk := sk, ct := ct, ss := ss, shareI := shareI, shareR := shareR
    suiteI := rfl
    suiteR := by rw [hmatch.pqMode]
    keyPair := hpair
    encaps := hencaps
    decaps := hdecaps
    pk_nonzero := hpk
    ct_nonzero := hnonzero ct ss hencaps
    startI := hshareI
    startR := hshareR }⟩

namespace Exchange

variable (e : Exchange L pI pR cI cR)

theorem helloI_fits (hmatch : Matching L pI pR) : HelloFits e.suite e.helloI :=
  buildHello_fits (by rw [hmatch.identityI]; exact L.length_x25519Base _) hmatch.lengthI e.startI
    (L.length_mlkemKeypair _ _ _ _ e.keyPair).1 (List.length_replicate ..)

theorem helloR_fits (hmatch : Matching L pI pR) : HelloFits e.suite e.helloR :=
  buildHello_fits (by rw [hmatch.identityR]; exact L.length_x25519Base _) hmatch.lengthR e.startR
    (List.length_replicate ..) (L.length_mlkemEncaps _ _ _ _ _ e.encaps).1

/-- The responder takes the initiator's HELLO. -/
theorem takeHello_initiator (hmatch : Matching L pI pR) :
    takeHello L pR (helloBytes e.helloI) = .ok e.helloI := by
  refine takeHello_helloBytes (by rw [e.suiteR]; exact e.helloI_fits hmatch) ?_ hmatch.verifiesI
  unfold checkCanonical
  rw [hmatch.responder]
  show (demand (allZero e.pk = false) _ >>= fun _ => demand (allZero (List.replicate _ 0) = true) _) = _
  rw [demand_of e.pk_nonzero, ok_bind, demand_of (allZero_replicate _)]

/-- The initiator takes the responder's HELLO. -/
theorem takeHello_responder (hmatch : Matching L pI pR) :
    takeHello L pI (helloBytes e.helloR) = .ok e.helloR := by
  refine takeHello_helloBytes (by rw [e.suiteI]; exact e.helloR_fits hmatch) ?_ hmatch.verifiesR
  unfold checkCanonical
  rw [hmatch.initiator]
  show (demand (allZero (List.replicate _ 0) = true) _ >>= fun _ => demand (allZero e.ct = false) _) = _
  rw [demand_of (allZero_replicate _), ok_bind, demand_of e.ct_nonzero]

theorem openHello_eq : openHello L pI cI = .ok (e.helloI, e.sk) := by
  have hpair : generateKeyPair L.toLibCrypto e.suite cI.kem = .ok ⟨e.pk, e.sk⟩ := by
    unfold generateKeyPair
    rw [e.keyPair]
  unfold openHello
  simp only [e.suiteI, hpair, e.startI, ok_bind]
  rfl

theorem answerHello_eq : answerHello L pR cR e.helloI = .ok (e.helloR, e.ss) := by
  have hencaps : encapsulate L.toLibCrypto e.suite e.pk cR.kem = .ok (e.ct, e.ss) := by
    unfold encapsulate
    rw [demand_of (L.length_mlkemKeypair _ _ _ _ e.keyPair).1, ok_bind, e.encaps]
  unfold answerHello
  simp only [e.suiteR, helloI, buildHello, hencaps, e.startR, ok_bind]
  rfl

theorem decapsulate_eq : decapsulate L.toLibCrypto e.suite e.helloR.mlKemCiphertext e.sk = .ok e.ss := by
  show decapsulate L.toLibCrypto e.suite e.ct e.sk = .ok e.ss
  unfold decapsulate
  rw [demand_of (L.length_mlkemEncaps _ _ _ _ _ e.encaps).1, ok_bind,
    demand_of (L.length_mlkemKeypair _ _ _ _ e.keyPair).2, ok_bind, e.decaps]

/-! ### One session -/

/-- Both sides compute one triple-DH secret. -/
theorem identitySecret_agrees (hdh : L.toLibCrypto.DhLaws) (hmatch : Matching L pI pR) :
    ∃ secret,
      deriveInteractive3dhSecret L pI.idSelfSec e.helloR.x25519Pub cI.ek e.helloR.ek true = .ok secret ∧
      deriveInteractive3dhSecret L pR.idSelfSec e.helloI.x25519Pub cR.ek e.helloI.ek false =
        .ok secret := by
  obtain ⟨dh1, h1⟩ := Option.isSome_iff_exists.mp (hdh.defined pI.idSelfSec cR.ek)
  obtain ⟨dh2, h2⟩ := Option.isSome_iff_exists.mp (hdh.defined cI.ek pR.idSelfSec)
  obtain ⟨dh3, h3⟩ := Option.isSome_iff_exists.mp (hdh.defined cI.ek cR.ek)
  have h1' := hdh.commutes pI.idSelfSec cR.ek ▸ h1
  have h2' := hdh.commutes cI.ek pR.idSelfSec ▸ h2
  have h3' := hdh.commutes cI.ek cR.ek ▸ h3
  refine ⟨L.hkdfExpand (L.hkdfExtract THREE_DH_SALT (dh1 ++ dh2 ++ dh3)) THREE_DH_INFO 32, ?_, ?_⟩
  · show deriveInteractive3dhSecret L pI.idSelfSec pR.selfIdentityX25519Pub cI.ek (L.x25519Base cR.ek)
      true = _
    simp [deriveInteractive3dhSecret, LibCrypto.x25519Dh, hmatch.identityR, h1, h2, h3]
  · show deriveInteractive3dhSecret L pR.idSelfSec pI.selfIdentityX25519Pub cR.ek (L.x25519Base cI.ek)
      false = _
    simp [deriveInteractive3dhSecret, LibCrypto.x25519Dh, hmatch.identityI, h1', h2', h3']

/-- The transcript of the exchange. -/
def transcript : Transcript := ⟨e.helloI, e.helloR, pI.channelInput⟩

/-- What a side takes for its CPace secret (handshakeCore.ts:604-624). -/
theorem pakeSecret_agrees (hcpace : CpaceLaws L) (hmatch : Matching L pI pR) (hmode : pI.mode = .pin) :
    ∃ secret,
      cpaceFinish L cI.scalar.val e.helloR.y e.helloI.sid e.helloI.y e.helloR.y = .ok secret ∧
      cpaceFinish L cR.scalar.val e.helloI.y e.helloI.sid e.helloI.y e.helloR.y = .ok secret := by
  obtain ⟨pin, yI, hpin, hyI, hmultI⟩ := startCpace_pin hmode e.startI
  obtain ⟨pin', yR, hpin', hyR, hmultR⟩ := startCpace_pin (hmatch.mode.trans hmode) e.startR
  rw [hmatch.pin, hpin] at hpin'
  obtain rfl := Option.some.inj hpin'
  rw [hmatch.channelInput] at hmultR
  obtain ⟨k, hkI, hkR⟩ := hcpace.correct _ _ _ _ _ hmultI hmultR
  have hI : e.helloI.y = yI := by
    unfold helloI buildHello
    simp only [hyI, Option.getD_some]
  have hR : e.helloR.y = yR := by
    unfold helloR buildHello
    simp only [hyR, Option.getD_some]
  have hlenI := L.length_ristretto255Scalarmult _ _ _ hmultI
  have hlenR := L.length_ristretto255Scalarmult _ _ _ hmultR
  rw [hI, hR]
  exact ⟨_, cpaceFinish_ok cI.scalar.property hlenR hlenI hlenR hkI,
    cpaceFinish_ok cR.scalar.property hlenI hlenI hlenR hkR⟩

/-- Both sides derive one session. -/
theorem sessions_agree (hdh : L.toLibCrypto.DhLaws) (hcpace : CpaceLaws L) (hmatch : Matching L pI pR) :
    ∃ s : Session, deriveSession L pI cI e.helloI e.helloR e.ss = .ok s ∧
      deriveSession L pR cR e.helloR e.helloI e.ss = .ok s := by
  obtain ⟨identity, hidI, hidR⟩ := e.identitySecret_agrees hdh hmatch
  have hfieldsI : orderedFields true e.helloI e.helloR pI.channelInput = e.transcript := rfl
  have hfieldsR : orderedFields false e.helloR e.helloI pI.channelInput = e.transcript := rfl
  cases hmode : pI.mode with
  | nopin =>
    refine ⟨combine L .nopin e.suite e.transcript [] identity e.ss, ?_, ?_⟩
    · unfold deriveSession
      simp only [hmatch.initiator, hidI, ok_bind, hmode, hfieldsI, e.suiteI]
      rfl
    · unfold deriveSession
      simp only [hmatch.responder, hidR, ok_bind, hmatch.mode, hmode, hmatch.channelInput, hfieldsR,
        e.suiteR]
      rfl
  | pin =>
    obtain ⟨pake, hpakeI, hpakeR⟩ := e.pakeSecret_agrees hcpace hmatch hmode
    refine ⟨combine L .pin e.suite e.transcript pake identity e.ss, ?_, ?_⟩
    · unfold deriveSession
      simp only [hmatch.initiator, hidI, ok_bind, hmode, hfieldsI, e.suiteI]
      simp only [transcript, hpakeI, ok_bind]
      rfl
    · unfold deriveSession
      simp only [hmatch.responder, hidR, ok_bind, hmatch.mode, hmode, hmatch.channelInput, hfieldsR,
        e.suiteR]
      simp only [transcript, hpakeR, ok_bind]
      rfl

/-- The initiator up to its confirmation. -/
theorem initiator_hello {s : Session} (hmatch : Matching L pI pR)
    (hs : deriveSession L pI cI e.helloI e.helloR e.ss = .ok s) :
    ∃ next, performHandshakeCore L pI cI = .send (helloBytes e.helloI) (.recv next) ∧
      next (helloBytes e.helloR) = confirmInitiator L pI cI s := by
  unfold performHandshakeCore
  simp only [hmatch.initiator, if_true, e.suiteI]
  rw [Proc.ofExcept_bind_of_ok e.openHello_eq]
  simp only [Proc.ofExcept_bind_of_ok (packHello_eq (e.helloI_fits hmatch)), Proc.tell_bind,
    Proc.hear_bind]
  refine ⟨_, rfl, ?_⟩
  simp only [Proc.ofExcept_bind_of_ok (e.takeHello_responder hmatch),
    Proc.ofExcept_bind_of_ok e.decapsulate_eq, Proc.ofExcept_bind_of_ok hs]

/-- The responder up to its confirmation. -/
theorem responder_hello {s : Session} (hmatch : Matching L pI pR)
    (hs : deriveSession L pR cR e.helloR e.helloI e.ss = .ok s) :
    ∃ next, performHandshakeCore L pR cR = .recv next ∧
      next (helloBytes e.helloI) = .send (helloBytes e.helloR) (confirmResponder L pR cR s) := by
  unfold performHandshakeCore
  simp only [hmatch.responder, Bool.false_eq_true, if_false, e.suiteR, Proc.hear_bind]
  refine ⟨_, rfl, ?_⟩
  simp only [Proc.ofExcept_bind_of_ok (e.takeHello_initiator hmatch),
    Proc.ofExcept_bind_of_ok e.answerHello_eq,
    Proc.ofExcept_bind_of_ok (packHello_eq (e.helloR_fits hmatch)), Proc.tell_bind,
    Proc.ofExcept_bind_of_ok hs]

end Exchange

/-! ### The ratchets -/

variable {secret dhOut dhOut' : Bytes} {rootSuite : RatchetRootSuite} {dhI dhR prime : Bytes}

/-- The initiator's ratchet after `initRatchet`. -/
def initiatorRatchet (L : LibCrypto) (rootSuite : RatchetRootSuite) (secret dhI remote dhOut : Bytes) :
    RatchetState where
  rootSuite := rootSuite
  rootKey := (kdfRk L secret dhOut).1
  sendingChainKey := some (kdfRk L secret dhOut).2
  receivingChainKey := none
  dhSelfPub := L.x25519Base dhI
  dhSelfSec := dhI
  dhRemotePub := some remote
  Ns := 0
  Nr := 0
  PN := 0
  skipped := OrdMap.empty

/-- The responder's ratchet after `initRatchet`. -/
def responderRatchet (L : LibCrypto) (rootSuite : RatchetRootSuite) (secret dhR : Bytes) :
    RatchetState where
  rootSuite := rootSuite
  rootKey := secret
  sendingChainKey := none
  receivingChainKey := none
  dhSelfPub := L.x25519Base dhR
  dhSelfSec := dhR
  dhRemotePub := none
  Ns := 0
  Nr := 0
  PN := 0
  skipped := OrdMap.empty

/-- The responder's ratchet after `primeResponderRatchet`. -/
def primedRatchet (L : LibCrypto) (rootSuite : RatchetRootSuite)
    (secret prime remote dhOut dhOut' : Bytes) : RatchetState where
  rootSuite := rootSuite
  rootKey := (kdfRk L (kdfRk L secret dhOut).1 dhOut').1
  sendingChainKey := some (kdfRk L (kdfRk L secret dhOut).1 dhOut').2
  receivingChainKey := some (kdfRk L secret dhOut).2
  dhSelfPub := L.x25519Base prime
  dhSelfSec := prime
  dhRemotePub := some remote
  Ns := 0
  Nr := 0
  PN := 0
  skipped := OrdMap.empty

@[simp] theorem initiatorRatchet_dhSelfPub {L : LibCrypto} {remote : Bytes} :
    (initiatorRatchet L rootSuite secret dhI remote dhOut).dhSelfPub = L.x25519Base dhI := rfl

@[simp] theorem responderRatchet_dhSelfPub {L : LibCrypto} :
    (responderRatchet L rootSuite secret dhR).dhSelfPub = L.x25519Base dhR := rfl

theorem initRatchet_initiator {remote : Bytes} (h : L.x25519Scalarmult dhI remote = some dhOut) :
    initRatchet L.toLibCrypto secret true (some remote) rootSuite dhI =
      .ok (initiatorRatchet L.toLibCrypto rootSuite secret dhI remote dhOut) := by
  unfold initRatchet LibCrypto.x25519Dh
  simp only [if_true, h, ok_bind]
  rfl

theorem initRatchet_responder : initRatchet L.toLibCrypto secret false none rootSuite dhR =
    .ok (responderRatchet L.toLibCrypto rootSuite secret dhR) := rfl

theorem primed_ok {remote : Bytes} (hremote : remote.length = RATCHET_DHPUB_LEN)
    (h : L.x25519Scalarmult dhR remote = some dhOut)
    (h' : L.x25519Scalarmult prime remote = some dhOut') :
    primed L (responderRatchet L.toLibCrypto rootSuite secret dhR) remote prime =
      .ok (primedRatchet L.toLibCrypto rootSuite secret prime remote dhOut dhOut') := by
  unfold primed
  rw [primeResponderRatchet_run L.toLibCrypto hremote rfl,
    dhRatchet_run L.toLibCrypto _ ⟨remote, 0, 0⟩ prime h h']
  rfl

/-- Send `n` messages. -/
def sendMessages (L : LibCrypto) : Nat → RatchetM Unit
  | 0 => pure ()
  | n + 1 => do
    sendMessages L n
    let _ ← ratchetEncrypt L

theorem sendMessages_run {L : LibCrypto} {state : RatchetState} {chainKey : Bytes}
    (h : state.sendingChainKey = some chainKey) (n : Nat) :
    (sendMessages L n).run state = .ok () { state with
      sendingChainKey := some (chainKeyAt L chainKey n)
      Ns := state.Ns + n } := by
  induction n with
  | zero =>
    show EStateM.Result.ok () state = _
    simp only [chainKeyAt, Nat.add_zero, ← h]
  | succ n ih =>
    rw [sendMessages, run_bind_of_ok ih, run_bind_of_ok (ratchetEncrypt_run L rfl)]
    rfl

/-- What the initiator does with the first message it receives, the responder's `n`-th: it
derives the responder's chain, and unless `n` is beyond the skip bound it returns the
message's key and stands where the responder stands. -/
structure DerivesChain (L : LibCrypto) (initiator responder : RatchetState) : Prop where
  derives : ∀ n secretKey messageKey header sent,
    (sendMessages L n >>= fun _ => ratchetEncrypt L).run responder = .ok (messageKey, header) sent →
    (n ≤ MAX_SKIP → ∃ received, (ratchetDecrypt L header secretKey).run initiator =
        .ok messageKey received ∧
      received.receivingChainKey = sent.sendingChainKey ∧ received.Nr = sent.Ns ∧
      received.dhRemotePub = some sent.dhSelfPub) ∧
    (MAX_SKIP < n → ∃ received, (ratchetDecrypt L header secretKey).run initiator =
        .error (.error "ratchet: MAX_SKIP exceeded") received ∧
      received.receivingChainKey = responder.sendingChainKey ∧ received.Nr = responder.Ns ∧
      received.dhRemotePub = some sent.dhSelfPub)

theorem receiveFromChain_run_far {L : LibCrypto} {state : RatchetState} {header : RatchetHeader}
    (h : state.Nr + MAX_SKIP < header.N) :
    (receiveFromChain L header).run state = .error (.error "ratchet: MAX_SKIP exceeded") state := by
  have hN : state.Nr ≤ header.N := by omega
  have hfar : ¬ header.N ≤ state.Nr + MAX_SKIP := by omega
  simp [receiveFromChain, skipMessageKeys, hN, hfar]

/-- A fresh chain receives its first message. -/
theorem receiveFromChain_fresh {L : LibCrypto} {state : RatchetState} {header : RatchetHeader}
    {pub chainKey : Bytes} (hremote : state.dhRemotePub = some pub)
    (hchain : state.receivingChainKey = some chainKey) (hNr : state.Nr = 0)
    (hskipped : state.skipped.size = 0) :
    (header.N ≤ MAX_SKIP → ∃ received, (receiveFromChain L header).run state =
        .ok (messageKeyAt L chainKey header.N) received ∧
      received.receivingChainKey = some (chainKeyAt L chainKey (header.N + 1)) ∧
      received.Nr = header.N + 1 ∧ received.dhRemotePub = some pub) ∧
    (MAX_SKIP < header.N → ∃ received, (receiveFromChain L header).run state =
        .error (.error "ratchet: MAX_SKIP exceeded") received ∧
      received.receivingChainKey = some chainKey ∧ received.Nr = 0 ∧
      received.dhRemotePub = some pub) := by
  constructor
  · intro hN
    have hsession : MAX_SKIP ≤ MAX_SKIP_SESSION := by decide
    obtain ⟨skipped, hreceive, -, -⟩ := @receiveFromChain_run L pub chainKey state header hremote
      (by rw [hNr, hchain]; rfl) (by omega) (by omega) (by omega)
    exact ⟨_, hreceive, rfl, rfl, hremote⟩
  · intro hN
    exact ⟨state, receiveFromChain_run_far (by omega), hchain, hNr, hremote⟩

theorem derivesChain (hdh : L.toLibCrypto.DhLaws) (hfresh : L.x25519Base prime ≠ L.x25519Base dhR)
    (h' : L.x25519Scalarmult prime (L.x25519Base dhI) = some dhOut') :
    DerivesChain L.toLibCrypto
      (initiatorRatchet L.toLibCrypto rootSuite secret dhI (L.x25519Base dhR) dhOut)
      (primedRatchet L.toLibCrypto rootSuite secret prime (L.x25519Base dhI) dhOut dhOut') := by
  refine ⟨fun n secretKey messageKey header sent hsent => ?_⟩
  rw [run_bind_of_ok (sendMessages_run rfl n), ratchetEncrypt_run L.toLibCrypto rfl] at hsent
  simp only [EStateM.Result.ok.injEq, Prod.mk.injEq] at hsent
  obtain ⟨⟨rfl, rfl⟩, rfl⟩ := hsent
  -- the first message of a chain that has no predecessor: nothing to skip, one DH step
  have hsame : L.x25519Scalarmult dhI (L.x25519Base prime) = some dhOut' := by
    rw [hdh.commutes]
    exact h'
  obtain ⟨dhOut'', hdefined⟩ := Option.isSome_iff_exists.mp (hdh.defined secretKey prime)
  have hnew : (initiatorRatchet L.toLibCrypto rootSuite secret dhI (L.x25519Base dhR) dhOut).isNewDh
      ⟨L.x25519Base prime, n, 0⟩ = true := by
    unfold RatchetState.isNewDh initiatorRatchet
    simpa using fun h => hfresh h.symm
  have hcount : (primedRatchet L.toLibCrypto rootSuite secret prime (L.x25519Base dhI) dhOut dhOut').Ns +
      n = n := Nat.zero_add n
  have hrun := @ratchetDecrypt_run_newDh L.toLibCrypto
    (initiatorRatchet L.toLibCrypto rootSuite secret dhI (L.x25519Base dhR) dhOut) _ _
    ⟨L.x25519Base prime, n, 0⟩ secretKey rfl hnew
    (skipMessageKeys_run_none L.toLibCrypto (Nat.zero_le _) rfl)
    (dhRatchet_run L.toLibCrypto _ _ secretKey hsame hdefined)
  obtain ⟨state, hstate, hremote, hchain, hNr, hskipped⟩ :
      ∃ state, (ratchetDecrypt L.toLibCrypto ⟨L.x25519Base prime, n, 0⟩ secretKey).run
          (initiatorRatchet L.toLibCrypto rootSuite secret dhI (L.x25519Base dhR) dhOut) =
        (receiveFromChain L.toLibCrypto ⟨L.x25519Base prime, n, 0⟩).run state ∧
      state.dhRemotePub = some (L.x25519Base prime) ∧
      state.receivingChainKey =
        some (kdfRk L.toLibCrypto (kdfRk L.toLibCrypto secret dhOut).1 dhOut').2 ∧
      state.Nr = 0 ∧ state.skipped.size = 0 := ⟨_, hrun, rfl, rfl, rfl, rfl⟩
  obtain ⟨hnear, hfar⟩ := @receiveFromChain_fresh L.toLibCrypto state ⟨L.x25519Base prime, n, 0⟩ _ _
    hremote hchain hNr hskipped
  rw [hcount]
  show (n ≤ MAX_SKIP → ∃ received, (ratchetDecrypt L.toLibCrypto ⟨L.x25519Base prime, n, 0⟩
      secretKey).run _ = _ ∧ _) ∧ (MAX_SKIP < n → ∃ received,
    (ratchetDecrypt L.toLibCrypto ⟨L.x25519Base prime, n, 0⟩ secretKey).run _ = _ ∧ _)
  rw [hstate]
  exact ⟨hnear, hfar⟩

/-! ### The confirmation -/

/-- The proofs and flights of one confirmed session. -/
structure Proofs (L : HandshakeCrypto) (s : Session) (dhI dhR : Bytes) where
  macR : Bytes
  macI : Bytes
  final : Bytes
  macR_eq : macR = hmacSha512 L s.secret (confirmationInputR s.transcript (L.x25519Base dhR))
  macI_eq : macI = hmacSha512 L s.secret
    (confirmationInputI s.transcript (L.x25519Base dhR) (L.x25519Base dhI) macR)
  final_eq : final = hmacSha512 L s.secret
    (finishInput s.transcript (L.x25519Base dhR) (L.x25519Base dhI) macR macI)

/-- The responder's confirmation against the initiator's. -/
theorem responder_confirm {s : Session} (proofs : Proofs L s cI.dh cR.dh)
    (h : L.x25519Scalarmult cR.dh (L.x25519Base cI.dh) = some dhOut)
    (h' : L.x25519Scalarmult cR.prime (L.x25519Base cI.dh) = some dhOut') :
    ∃ next, confirmResponder L pR cR s = .send (packConfirm (L.x25519Base cR.dh) proofs.macR) (.recv next) ∧
      next (packConfirm (L.x25519Base cI.dh) proofs.macI) = .send (packFinish proofs.final)
        (.done (s.established (primedRatchet L.toLibCrypto (roomPqModeToRootSuite pR.pqMode) s.secret
          cR.prime (L.x25519Base cI.dh) dhOut dhOut') false)) := by
  have hmacI : proofs.macI.length = MAC_LEN := by
    rw [proofs.macI_eq]
    exact L.length_hkdfExtract _ _
  unfold confirmResponder
  rw [initRatchet_responder]
  simp only [Proc.ofExcept_ok, Proc.done_bind, Proc.tell_bind, Proc.hear_bind,
    responderRatchet_dhSelfPub, ← proofs.macR_eq]
  refine ⟨_, rfl, ?_⟩
  rw [Proc.ofExcept_bind_of_ok (parseConfirm_packConfirm (L.length_x25519Base _) hmacI)]
  dsimp only
  rw [Proc.require_bind_of proofs.macI_eq,
    Proc.ofExcept_bind_of_ok (primed_ok (L.length_x25519Base _) h h'), ← proofs.final_eq]
  rfl

/-- The initiator's confirmation against the responder's. -/
theorem initiator_confirm {s : Session} (proofs : Proofs L s cI.dh cR.dh)
    (h : L.x25519Scalarmult cI.dh (L.x25519Base cR.dh) = some dhOut) :
    ∃ next, confirmInitiator L pI cI s = .recv next ∧
      ∃ last, next (packConfirm (L.x25519Base cR.dh) proofs.macR) =
        .send (packConfirm (L.x25519Base cI.dh) proofs.macI) (.recv last) ∧
      last (packFinish proofs.final) = .done (s.established (initiatorRatchet L.toLibCrypto
        (roomPqModeToRootSuite pI.pqMode) s.secret cI.dh (L.x25519Base cR.dh) dhOut) true) := by
  have hmacR : proofs.macR.length = MAC_LEN := by
    rw [proofs.macR_eq]
    exact L.length_hkdfExtract _ _
  have hfinal : proofs.final.length = MAC_LEN := by
    rw [proofs.final_eq]
    exact L.length_hkdfExtract _ _
  unfold confirmInitiator
  rw [Proc.hear_bind]
  refine ⟨_, rfl, ?_⟩
  rw [Proc.ofExcept_bind_of_ok (parseConfirm_packConfirm (L.length_x25519Base _) hmacR)]
  dsimp only
  rw [Proc.ofExcept_bind_of_ok (initRatchet_initiator h), initiatorRatchet_dhSelfPub, ← proofs.macI_eq, Proc.tell_bind,
    Proc.require_bind_of proofs.macR_eq, Proc.hear_bind]
  refine ⟨_, rfl, ?_⟩
  rw [Proc.ofExcept_bind_of_ok (parseFinish_packFinish hfinal),
    Proc.require_bind_of proofs.final_eq]
  rfl

/-! ## Agreement -/

/-- What the results of the two sides have in common: one root, one bootstrap of PQ healing
with opposite turns, the initiator's sending chain as the responder's receiving chain before
its first message, and an initiator that derives the responder's sending chain. -/
structure Agreed (L : LibCrypto) (initiator responder : Established) : Prop where
  secret : initiator.secret = responder.secret
  rootKey : initiator.rootKey = responder.rootKey
  binding : initiator.binding = responder.binding
  nextOfferer : initiator.nextOfferer = .local ∧ responder.nextOfferer = .remote
  chain : ∃ chainKey, initiator.state.sendingChainKey = some chainKey ∧
    responder.state.receivingChainKey = some chainKey ∧ initiator.state.Ns = 0 ∧
    responder.state.Nr = 0 ∧ responder.state.dhRemotePub = some initiator.state.dhSelfPub
  derives : responder.state.sendingChainKey.isSome = true ∧
    DerivesChain L initiator.state responder.state

/-- Two honest sides of one session: whatever the order in which they act, both return, and
what they return agrees. -/
theorem handshake_agreement (hdh : L.toLibCrypto.DhLaws) (hkem : L.toLibCrypto.KemLaws)
    (hcpace : CpaceLaws L) (hmatch : Matching L pI pR) (hdrawn : Drawn L pI cI cR) :
    ∃ outI outR, Net.Ends (Net.start (performHandshakeCore L pI cI) (performHandshakeCore L pR cR))
        ⟨.done outI, .done outR, [], []⟩ ∧
      Agreed L.toLibCrypto outI outR := by
  obtain ⟨e⟩ := exchange_exists hkem hmatch hdrawn
  obtain ⟨s, hsI, hsR⟩ := e.sessions_agree hdh hcpace hmatch
  obtain ⟨dhOut, hdhI⟩ := Option.isSome_iff_exists.mp (hdh.defined cI.dh cR.dh)
  obtain ⟨dhOut', hdhR'⟩ := Option.isSome_iff_exists.mp (hdh.defined cR.prime cI.dh)
  have hdhR : L.x25519Scalarmult cR.dh (L.x25519Base cI.dh) = some dhOut := by
    rw [hdh.commutes]
    exact hdhI
  let proofs : Proofs L s cI.dh cR.dh := ⟨_, _, _, rfl, rfl, rfl⟩
  obtain ⟨nextI, hopenI, hnextI⟩ := e.initiator_hello hmatch hsI
  obtain ⟨nextR, hopenR, hnextR⟩ := e.responder_hello hmatch hsR
  obtain ⟨confirmR, hconfirmR, hfinishR⟩ := @responder_confirm L pR cI cR _ _ s proofs hdhR hdhR'
  obtain ⟨confirmI, hconfirmI, lastI, hanswerI, hlastI⟩ := @initiator_confirm L pI cI cR _ s proofs hdhI
  refine ⟨s.established (initiatorRatchet L.toLibCrypto (roomPqModeToRootSuite pI.pqMode) s.secret
      cI.dh (L.x25519Base cR.dh) dhOut) true,
    s.established (primedRatchet L.toLibCrypto (roomPqModeToRootSuite pR.pqMode) s.secret
      cR.prime (L.x25519Base cI.dh) dhOut dhOut') false, Net.ends_of_runs ?_ ?_, ?_⟩
  · -- HELLO, HELLO and the responder's CONFIRM, the initiator's CONFIRM, FINISH
    unfold Net.start
    rw [hopenI, hopenR]
    refine .head (.sendLeft ..) (.head (.recvRight ..) ?_)
    rw [hnextR, hconfirmR]
    refine .head (.sendRight ..) (.head (.recvLeft ..) (.head (.sendRight ..) ?_))
    rw [hnextI, hconfirmI]
    refine .head (.recvLeft ..) ?_
    rw [hanswerI]
    refine .head (.sendLeft ..) (.head (.recvRight ..) ?_)
    rw [hfinishR]
    refine .head (.sendRight ..) (.head (.recvLeft ..) ?_)
    rw [hlastI]
  · rintro n' ⟨⟩
  · exact {
      secret := rfl
      rootKey := rfl
      binding := rfl
      nextOfferer := ⟨rfl, rfl⟩
      chain := ⟨_, rfl, rfl, rfl, rfl, rfl⟩
      derives := ⟨rfl, by
        have hsuite : roomPqModeToRootSuite pR.pqMode = roomPqModeToRootSuite pI.pqMode := by
          rw [hmatch.pqMode]
        rw [hsuite]
        exact derivesChain hdh hdrawn.fresh hdhR'⟩ }

/-! ### A session in the clear -/

theorem length_pad_thirtyTwo (data : Bytes) : (LibCrypto.pad 32 data).length = 32 :=
  LibCrypto.length_pad _ _

/-- Every primitive of a handshake in the clear; a signature is the key and the message. -/
def transparent : HandshakeCrypto where
  toLibCrypto := LibCrypto.transparent
  sha256 := LibCrypto.pad 32
  ristretto255FromHash := LibCrypto.pad 32
  ristretto255Scalarmult scalar point :=
    some (List.zipWith (· + ·) (LibCrypto.pad 32 scalar) (LibCrypto.pad 32 point))
  ed25519Verify message signature key := signature == LibCrypto.pad 64 (key ++ message)
  length_sha256 := length_pad_thirtyTwo
  length_ristretto255FromHash := length_pad_thirtyTwo
  length_ristretto255Scalarmult _ _ _ h := by
    rw [← Option.some.inj h, List.length_zipWith, LibCrypto.length_pad, LibCrypto.length_pad]
    rfl

theorem zipWith_add_left_comm (a b c : Bytes) :
    List.zipWith (· + ·) a (List.zipWith (· + ·) b c) =
      List.zipWith (· + ·) b (List.zipWith (· + ·) a c) := by
  induction a generalizing b c with
  | nil => cases b <;> simp
  | cons x a ih =>
    cases b with
    | nil => simp
    | cons y b =>
      cases c with
      | nil => simp
      | cons z c =>
        have hhead : x + (y + z) = y + (x + z) := by
          rw [← UInt8.add_assoc, UInt8.add_comm x y, UInt8.add_assoc]
        simp [ih, hhead]

theorem transparent_cpaceLaws : CpaceLaws transparent where
  correct a b hash shareA shareB hA hB := by
    obtain rfl := Option.some.inj hA
    obtain rfl := Option.some.inj hB
    have hsize : ∀ c : Bytes, (List.zipWith (· + ·) (LibCrypto.pad 32 c)
        (LibCrypto.pad 32 (LibCrypto.pad 32 hash))).length = 32 := by simp
    refine ⟨_, rfl, ?_⟩
    show some (List.zipWith (· + ·) (LibCrypto.pad 32 b) (LibCrypto.pad 32 (List.zipWith (· + ·)
        (LibCrypto.pad 32 a) (LibCrypto.pad 32 (LibCrypto.pad 32 hash))))) =
      some (List.zipWith (· + ·) (LibCrypto.pad 32 a) (LibCrypto.pad 32 (List.zipWith (· + ·)
        (LibCrypto.pad 32 b) (LibCrypto.pad 32 (LibCrypto.pad 32 hash)))))
    rw [LibCrypto.pad_of_length (hsize a), LibCrypto.pad_of_length (hsize b), zipWith_add_left_comm]

/-- One side of a session in a PIN room. -/
def sampleParams (amInitiator : Bool) (idSelfSec selfEd peerEd : Bytes) : HandshakeCoreParams where
  mode := .pin
  pin := some [1, 2, 3, 4]
  channelInput := [7]
  amInitiator := amInitiator
  idSelfSec := idSelfSec
  selfIdentityX25519Pub := LibCrypto.pad 32 idSelfSec
  selfIdentityCrossSignature :=
    LibCrypto.pad 64 (selfEd ++ (IDENTITY_CROSS_SIGN_DOMAIN_BYTES ++ LibCrypto.pad 32 idSelfSec))
  peerIdentityEd25519Pub := peerEd

/-- What one side draws. -/
def sampleCoins (seed : UInt8) : HandshakeCoins where
  sid := ⟨List.replicate 32 seed, List.length_replicate⟩
  ek := [seed, 1]
  kem := [seed, 2]
  scalar := ⟨List.replicate 32 seed, List.length_replicate⟩
  dh := [seed, 3]
  prime := [seed, 4]

theorem sample_matching :
    Matching transparent (sampleParams true [11] [12] [22]) (sampleParams false [21] [22] [12]) where
  initiator := rfl
  responder := rfl
  mode := rfl
  pqMode := rfl
  pin := rfl
  channelInput := rfl
  pinGiven _ := rfl
  identityI := rfl
  identityR := rfl
  lengthI := LibCrypto.length_pad _ _
  lengthR := LibCrypto.length_pad _ _
  verifiesI := beq_self_eq_true _
  verifiesR := beq_self_eq_true _

theorem sample_drawn :
    Drawn transparent (sampleParams true [11] [12] [22]) (sampleCoins 1) (sampleCoins 2) where
  keyPair := by
    refine ⟨_, _, rfl, by decide +kernel, fun ct ss h => ?_⟩
    obtain ⟨rfl, -⟩ := Prod.mk.inj (Except.ok.inj h)
    decide +kernel
  shares _ _ _ _ := rfl
  fresh := by decide +kernel

theorem handshake_agreement_sample :
    Matching transparent (sampleParams true [11] [12] [22]) (sampleParams false [21] [22] [12]) ∧
    Drawn transparent (sampleParams true [11] [12] [22]) (sampleCoins 1) (sampleCoins 2) ∧
    ∃ outI outR, Net.Ends
        (Net.start (performHandshakeCore transparent (sampleParams true [11] [12] [22]) (sampleCoins 1))
          (performHandshakeCore transparent (sampleParams false [21] [22] [12]) (sampleCoins 2)))
        ⟨.done outI, .done outR, [], []⟩ ∧
      Agreed transparent.toLibCrypto outI outR :=
  ⟨sample_matching, sample_drawn, handshake_agreement LibCrypto.transparent_dhLaws
    LibCrypto.transparent_kemLaws transparent_cpaceLaws sample_matching sample_drawn⟩

end Handshake

end P2Party
