import P2Party.PqHealing.Machine

/-!
# What the transitions of the machine do

One lemma per method of `PqHealingMachine`: either it throws and leaves the
machine as it was, or its checks passed and the machine it leaves is named here.

- `Machine.offering`, `received`, `answered`, `finished`, `acked`: the machines
  the methods leave behind;
- `Machine.AcceptsOffer`, `AcceptsAdvance`, `AcceptsAck`: the checks;
- `prepareOffer_cases`, `acceptAuthenticatedOffer_cases`, ...: the methods;
- `Machine.WellFormed.offering`, ...: every one of these machines is well formed.
-/

namespace P2Party

open Base

namespace PqHealing

/-! ## Shared checks -/

/-- The epoch and both counters can still advance (`#assertCanStartExchange`). -/
structure Machine.CanStart (m : Machine) : Prop where
  epoch : m.epoch < MAX_U64
  localCounter : m.localCounter < MAX_U64
  remoteCounter : m.remoteCounter < MAX_U64

theorem requireIncrementableU64_eq_ok {n : Nat} {name : String} :
    requireIncrementableU64 n name = .ok () ↔ n < MAX_U64 := by
  simp only [requireIncrementableU64, requireU64, demand_bind]
  by_cases hle : n ≤ MAX_U64
  · rw [if_pos hle, demand_eq_ok]
    omega
  · rw [if_neg hle]
    simp only [reduceCtorEq, false_iff]
    omega

theorem assertCanStartExchange_eq_ok {m : Machine} :
    m.assertCanStartExchange = .ok () ↔ m.CanStart := by
  unfold Machine.assertCanStartExchange
  constructor
  · intro h
    obtain ⟨⟨⟩, hepoch, h⟩ := except_bind_eq_ok.mp h
    obtain ⟨⟨⟩, hlocal, hremote⟩ := except_bind_eq_ok.mp h
    exact ⟨requireIncrementableU64_eq_ok.mp hepoch, requireIncrementableU64_eq_ok.mp hlocal,
      requireIncrementableU64_eq_ok.mp hremote⟩
  · rintro ⟨hepoch, hlocal, hremote⟩
    rw [requireIncrementableU64_eq_ok.mpr hepoch, ok_bind,
      requireIncrementableU64_eq_ok.mpr hlocal, ok_bind, requireIncrementableU64_eq_ok.mpr hremote]

/-- A check either passes or throws. -/
theorem check_cases (x : Except JsError Unit) : x = .ok () ∨ ∃ e, x = .error e := by
  cases x with
  | ok u => exact .inl rfl
  | error e => exact .inr ⟨e, rfl⟩

variable {L : LibCrypto} {m : Machine}

theorem Machine.WellFormed.headerFits (h : m.WellFormed) (hstart : m.CanStart) :
    HeaderFits m.binding m.localCounter m.epoch :=
  ⟨h.binding, h.localCounter, hstart.epoch⟩

/-- The OFFER the machine would make with a public key. -/
def Machine.localOffer (m : Machine) (publicKey : Bytes) : DecodedOffer :=
  offerOf m.suite m.binding m.localCounter m.epoch publicKey

theorem Machine.localOffer_ok (h : m.WellFormed) (hstart : m.CanStart) {publicKey : Bytes}
    (hpk : publicKey.length = m.suite.publicKeyBytes) : m.OfferOk (m.localOffer publicKey) :=
  decodeOffer_offerRecord (h.headerFits hstart) hpk (by simp)

/-- The root a committed ADVANCE derives from the current one. -/
def nextRootOf (L : LibCrypto) (rootKey sharedSecret advance : Bytes) : Bytes :=
  L.hkdfExpand (L.hkdfExtract rootKey sharedSecret) (KDF_DOMAIN ++ advance) PQ_HEALING_ROOT_BYTES

@[simp] theorem length_nextRootOf (rootKey sharedSecret advance : Bytes) :
    (nextRootOf L rootKey sharedSecret advance).length = PQ_HEALING_ROOT_BYTES :=
  L.length_hkdfExpand _ _ _

theorem deriveNextRoot_eq {rootKey : Bytes} (h : rootKey.length = PQ_HEALING_ROOT_BYTES)
    (sharedSecret advance : Bytes) :
    deriveNextRoot L rootKey sharedSecret advance = .ok (nextRootOf L rootKey sharedSecret advance) := by
  simp only [deriveNextRoot, requireBytes, demand_of h, ok_bind]
  rfl

/-! ## Making an OFFER -/

/-- The machine after an OFFER with this key pair was prepared or dispatched. -/
def Machine.offering (m : Machine) (publicKey secretKey : Bytes) (dispatched : Bool) : Machine :=
  { m with phase := .outboundOffer dispatched (m.localOffer publicKey) ⟨publicKey, secretKey⟩ }

/-- The checks of `prepareOffer` passed with this key pair. -/
structure Machine.Offers (L : LibCrypto) (m : Machine) (coins publicKey secretKey : Bytes) :
    Prop where
  idle : m.phase = .idle
  turn : m.nextOfferer = .local
  start : m.CanStart
  keyPair : L.mlkemKeypair m.suite coins = .ok (publicKey, secretKey)

theorem prepareOffer_run (h : m.WellFormed) {coins pk sk : Bytes} (ho : m.Offers L coins pk sk) :
    (prepareOffer L coins).run m = .ok (m.localOffer pk).bytes (m.offering pk sk false) := by
  obtain ⟨hpk, hsk⟩ := L.length_mlkemKeypair _ _ _ _ ho.keyPair
  have hpk' : requireBytes pk "ML-KEM public key" m.suite.publicKeyBytes = .ok () := demand_of hpk
  have hsk' : requireBytes sk "ML-KEM secret key" m.suite.secretKeyBytes = .ok () := demand_of hsk
  have hgen : generateKeyPair L m.suite coins = .ok ⟨pk, sk⟩ := by rw [generateKeyPair, ho.keyPair]
  have henc : encodeOffer m.suite m.binding m.localCounter m.epoch pk =
      .ok (m.localOffer pk).bytes := encodeOffer_eq (h.headerFits ho.start) hpk
  have hdec : decodeOffer (m.localOffer pk).bytes m.suite (some m.binding) =
      .ok (m.localOffer pk) := Machine.localOffer_ok h ho.start hpk
  unfold prepareOffer
  simp only [run_get_bind, run_ensure_bind, run_attempt_bind, if_pos ho.idle, if_pos ho.turn,
    assertCanStartExchange_eq_ok.mpr ho.start, hgen, hpk', hsk', henc, hdec]
  rfl

theorem prepareOffer_cases (coins : Bytes) :
    (∃ e, (prepareOffer L coins).run m = .error e m) ∨ ∃ pk sk, m.Offers L coins pk sk := by
  by_cases hidle : m.phase = .idle
  case neg =>
    unfold prepareOffer
    simp only [run_get_bind, run_ensure_bind, if_neg hidle]
    exact .inl ⟨_, rfl⟩
  by_cases hturn : m.nextOfferer = .local
  case neg =>
    unfold prepareOffer
    simp only [run_get_bind, run_ensure_bind, if_pos hidle, if_neg hturn]
    exact .inl ⟨_, rfl⟩
  rcases check_cases m.assertCanStartExchange with hstart | ⟨e, hstart⟩
  case inr =>
    unfold prepareOffer
    simp only [run_get_bind, run_ensure_bind, run_attempt_bind, if_pos hidle, if_pos hturn, hstart]
    exact .inl ⟨_, rfl⟩
  cases hkp : L.mlkemKeypair m.suite coins with
  | ok pair =>
    exact .inr ⟨pair.1, pair.2, hidle, hturn, assertCanStartExchange_eq_ok.mp hstart, hkp⟩
  | error code =>
    unfold prepareOffer
    simp only [run_get_bind, run_ensure_bind, run_attempt_bind, if_pos hidle, if_pos hturn, hstart,
      generateKeyPair, hkp]
    exact .inl ⟨_, rfl⟩

theorem markOfferDispatched_run (pk sk : Bytes) :
    markOfferDispatched.run (m.offering pk sk false) = .ok () (m.offering pk sk true) := rfl

theorem Machine.WellFormed.offering (h : m.WellFormed) {coins pk sk : Bytes}
    (ho : m.Offers L coins pk sk) (dispatched : Bool) : (m.offering pk sk dispatched).WellFormed := by
  obtain ⟨hpk, hsk⟩ := L.length_mlkemKeypair _ _ _ _ ho.keyPair
  exact ⟨h.binding, h.root, h.epoch, h.localCounter, h.remoteCounter, h.lastOffer, h.lastAdvance,
    Machine.localOffer_ok h ho.start hpk, rfl, hsk,
    ⟨ho.start.localCounter, ho.start.remoteCounter⟩, ho.turn, rfl, rfl⟩

/-! ## Answering an OFFER -/

/-- The machine that holds a received OFFER. -/
def Machine.received (m : Machine) (offer : DecodedOffer) : Machine :=
  { m with phase := .inboundOffer offer }

/-- The checks of `acceptAuthenticatedOffer` passed with this OFFER. -/
structure Machine.AcceptsOffer (m : Machine) (record : Bytes) (offer : DecodedOffer) : Prop where
  decodes : decodeOffer record m.suite (some m.binding) = .ok offer
  fresh : m.rejectKnownOfferReplayOrFork offer = .ok ()
  idle : m.phase = .idle
  turn : m.nextOfferer = .remote
  counter : offer.senderCounter = m.remoteCounter
  epoch : offer.fromEpoch = m.epoch
  start : m.CanStart

theorem Machine.AcceptsOffer.offerOk {record : Bytes} {offer : DecodedOffer}
    (h : m.AcceptsOffer record offer) : m.OfferOk offer := by
  unfold Machine.OfferOk
  rw [(decodeOffer_spec h.decodes).bytes_eq]
  exact h.decodes

theorem requireExpectedCounter_eq_ok {counter : Nat} :
    m.requireExpectedCounter counter = .ok () ↔ counter = m.remoteCounter := by
  simp only [Machine.requireExpectedCounter, demand_bind]
  by_cases hlt : counter < m.remoteCounter
  · rw [if_neg (not_not_intro hlt)]
    simp only [reduceCtorEq, false_iff]
    omega
  · rw [if_pos hlt, demand_eq_ok]
    omega

theorem requireExpectedEpoch_eq_ok {epoch : Nat} :
    m.requireExpectedEpoch epoch = .ok () ↔ epoch = m.epoch := by
  simp only [Machine.requireExpectedEpoch, demand_bind]
  by_cases hlt : epoch < m.epoch
  · rw [if_neg (not_not_intro hlt)]
    simp only [reduceCtorEq, false_iff]
    omega
  · rw [if_pos hlt, demand_eq_ok]
    omega

theorem acceptAuthenticatedOffer_run {record : Bytes} {offer : DecodedOffer}
    (h : m.AcceptsOffer record offer) :
    (acceptAuthenticatedOffer record).run m = .ok () (m.received offer) := by
  unfold acceptAuthenticatedOffer
  simp only [run_get_bind, run_ensure_bind, run_attempt_bind, h.decodes, h.fresh, if_pos h.idle,
    if_pos h.turn, requireExpectedCounter_eq_ok.mpr h.counter,
    requireExpectedEpoch_eq_ok.mpr h.epoch, assertCanStartExchange_eq_ok.mpr h.start]
  rfl

theorem acceptAuthenticatedOffer_cases (record : Bytes) :
    (∃ e, (acceptAuthenticatedOffer record).run m = .error e m) ∨
      ∃ offer, m.AcceptsOffer record offer := by
  unfold acceptAuthenticatedOffer
  simp only [run_get_bind, run_ensure_bind, run_attempt_bind]
  cases hdec : decodeOffer record m.suite (some m.binding) with
  | error e => exact .inl ⟨e, rfl⟩
  | ok offer =>
    rcases check_cases (m.rejectKnownOfferReplayOrFork offer) with hfresh | ⟨e, hfresh⟩
    case inr => exact .inl ⟨e, by simp only [hfresh]⟩
    by_cases hidle : m.phase = .idle
    case neg =>
      simp only [hfresh, if_neg hidle]
      exact .inl ⟨_, rfl⟩
    by_cases hturn : m.nextOfferer = .remote
    case neg =>
      simp only [hfresh, if_pos hidle, if_neg hturn]
      exact .inl ⟨_, rfl⟩
    rcases check_cases (m.requireExpectedCounter offer.senderCounter) with hcounter | ⟨e, hcounter⟩
    case inr => exact .inl ⟨e, by simp only [hfresh, if_pos hidle, if_pos hturn, hcounter]⟩
    rcases check_cases (m.requireExpectedEpoch offer.fromEpoch) with hepoch | ⟨e, hepoch⟩
    case inr => exact .inl ⟨e, by simp only [hfresh, if_pos hidle, if_pos hturn, hcounter, hepoch]⟩
    rcases check_cases m.assertCanStartExchange with hstart | ⟨e, hstart⟩
    case inr =>
      exact .inl ⟨e, by simp only [hfresh, if_pos hidle, if_pos hturn, hcounter, hepoch, hstart]⟩
    exact .inr ⟨offer, hdec, hfresh, hidle, hturn, requireExpectedCounter_eq_ok.mp hcounter,
      requireExpectedEpoch_eq_ok.mp hepoch, assertCanStartExchange_eq_ok.mp hstart⟩

/-- The ADVANCE that answers an OFFER with a ciphertext. -/
def Machine.localAdvance (m : Machine) (offer : DecodedOffer) (ciphertext : Bytes) :
    DecodedAdvance :=
  advanceOf m.suite m.binding m.localCounter offer ciphertext

/-- The machine after an ADVANCE was committed. -/
def Machine.answered (m : Machine) (L : LibCrypto) (offer : DecodedOffer)
    (ciphertext sharedSecret : Bytes) : Machine :=
  { m with
    rootKey := nextRootOf L m.rootKey sharedSecret (m.localAdvance offer ciphertext).bytes
    epoch := m.epoch + 1
    localCounter := m.localCounter + 1
    remoteCounter := m.remoteCounter + 1
    nextOfferer := .local
    lastInboundOffer := some offer
    phase := .outboundAdvanceAwaitingAck offer (m.localAdvance offer ciphertext) }

/-- The machine that prepared an ADVANCE and has not committed it. -/
def Machine.prepared (m : Machine) (L : LibCrypto) (offer : DecodedOffer)
    (ciphertext sharedSecret : Bytes) : Machine :=
  { m with
    phase := .outboundAdvancePrepared offer (m.localAdvance offer ciphertext)
      (nextRootOf L m.rootKey sharedSecret (m.localAdvance offer ciphertext).bytes) }

theorem Machine.localAdvance_ok (h : m.WellFormed) {record : Bytes} {offer : DecodedOffer}
    (ha : m.AcceptsOffer record offer) {ct : Bytes} (hct : ct.length = m.suite.ciphertextBytes) :
    m.AdvanceOk (m.localAdvance offer ct) := by
  have hspec := decodeOffer_spec ha.decodes
  have hfits : HeaderFits m.binding m.localCounter offer.fromEpoch :=
    ⟨h.binding, h.localCounter, hspec.from_lt⟩
  exact decodeAdvance_advanceRecord hfits (by simp) ha.offerOk hct

theorem encapsulate_eq {publicKey coins ct ss : Bytes} {suite : MlKemParameterSet}
    (hpk : publicKey.length = suite.publicKeyBytes)
    (h : L.mlkemEncaps suite publicKey coins = .ok (ct, ss)) :
    encapsulate L suite publicKey coins = .ok (ct, ss) := by
  simp only [encapsulate, demand_of hpk, ok_bind, h]

theorem Machine.AcceptsOffer.publicKey_length {record : Bytes} {offer : DecodedOffer}
    (ha : m.AcceptsOffer record offer) : offer.publicKey.length = m.suite.publicKeyBytes := by
  have hspec := decodeOffer_spec ha.decodes
  rw [hspec.publicKey_eq, List.length_drop, hspec.length_eq, offerLength]
  omega

theorem prepareAdvance_run (h : m.WellFormed) {record coins ct ss : Bytes} {offer : DecodedOffer}
    (ha : m.AcceptsOffer record offer)
    (henc : L.mlkemEncaps m.suite offer.publicKey coins = .ok (ct, ss)) :
    (prepareAdvance L coins).run (m.received offer) =
      .ok (m.localAdvance offer ct).bytes (m.prepared L offer ct ss) := by
  obtain ⟨hct, hss⟩ := L.length_mlkemEncaps _ _ _ _ _ henc
  have hspec := decodeOffer_spec ha.decodes
  have hfits : HeaderFits m.binding m.localCounter offer.fromEpoch :=
    ⟨h.binding, h.localCounter, hspec.from_lt⟩
  have hct' : requireBytes ct "ML-KEM ciphertext" m.suite.ciphertextBytes = .ok () := demand_of hct
  have hss' : requireBytes ss "ML-KEM shared secret" MlKemParameterSet.sharedSecretBytes = .ok () :=
    demand_of hss
  have hbytes : encodeAdvance m.suite m.binding m.localCounter offer ct =
      .ok (m.localAdvance offer ct).bytes := encodeAdvance_eq hfits hspec.to_eq hct
  have hdec : decodeAdvance (m.localAdvance offer ct).bytes m.suite (some m.binding) =
      .ok (m.localAdvance offer ct) := Machine.localAdvance_ok h ha hct
  have hinc : requireIncrementableU64 m.localCounter "local counter" = .ok () :=
    requireIncrementableU64_eq_ok.mpr ha.start.localCounter
  unfold prepareAdvance
  simp only [run_get_bind, Machine.received, run_attempt_bind, hinc,
    encapsulate_eq ha.publicKey_length henc, hct', hss', hbytes, hdec, deriveNextRoot_eq h.root]
  rfl

/-- Without an encapsulation the machine stays where the OFFER was received. -/
theorem prepareAdvance_error {record coins : Bytes} {offer : DecodedOffer} {code : Int}
    (ha : m.AcceptsOffer record offer)
    (henc : L.mlkemEncaps m.suite offer.publicKey coins = .error code) :
    ∃ e, (prepareAdvance L coins).run (m.received offer) = .error e (m.received offer) := by
  have hinc : requireIncrementableU64 m.localCounter "local counter" = .ok () :=
    requireIncrementableU64_eq_ok.mpr ha.start.localCounter
  unfold prepareAdvance
  simp only [run_get_bind, Machine.received, run_attempt_bind, hinc, encapsulate,
    demand_of ha.publicKey_length, ok_bind, henc]
  exact ⟨_, rfl⟩

theorem commitPreparedAdvance_run {record ct ss : Bytes} {offer : DecodedOffer}
    (ha : m.AcceptsOffer record offer) :
    commitPreparedAdvance.run (m.prepared L offer ct ss) =
      .ok (m.localAdvance offer ct).bytes (m.answered L offer ct ss) := by
  have hroot : requireBytes (nextRootOf L m.rootKey ss (m.localAdvance offer ct).bytes)
      "candidate PQ root" PQ_HEALING_ROOT_BYTES = .ok () := demand_of (length_nextRootOf _ _ _)
  have hepoch : (m.localAdvance offer ct).toEpoch = m.epoch + 1 := by
    rw [← ha.epoch]
    rfl
  unfold commitPreparedAdvance
  simp only [run_get_bind, Machine.prepared, run_attempt_bind, hroot, hepoch]
  rfl

theorem Machine.WellFormed.received (h : m.WellFormed) {record : Bytes} {offer : DecodedOffer}
    (ha : m.AcceptsOffer record offer) : (m.received offer).WellFormed := by
  exact ⟨h.binding, h.root, h.epoch, h.localCounter, h.remoteCounter, h.lastOffer, h.lastAdvance,
    ha.offerOk, ha.turn, ha.counter, ha.epoch⟩

theorem Machine.WellFormed.answered (h : m.WellFormed) {record ct : Bytes} {offer : DecodedOffer}
    (ha : m.AcceptsOffer record offer) (hct : ct.length = m.suite.ciphertextBytes) (ss : Bytes) :
    (m.answered L offer ct ss).WellFormed := by
  have hspec := decodeOffer_spec ha.decodes
  have hto : offer.toEpoch = m.epoch + 1 := by rw [hspec.to_eq, ha.epoch]
  refine ⟨h.binding, length_nextRootOf _ _ _, ha.start.epoch, ha.start.localCounter,
    ha.start.remoteCounter, ?_, ?_, ?_⟩
  · rintro offer' ⟨⟩
    exact ⟨ha.offerOk, Nat.le_of_eq hto, Nat.lt_succ_of_le (Nat.le_of_eq ha.counter)⟩
  · intro advance hadvance
    obtain ⟨hok, hepoch, hcounter⟩ := h.lastAdvance advance hadvance
    exact ⟨hok, Nat.le_succ_of_le hepoch, Nat.lt_succ_of_lt hcounter⟩
  · refine ⟨Machine.localAdvance_ok h ha hct, rfl, rfl, rfl, rfl, ?_, ?_⟩
    · exact congrArg (· + 1) ha.counter
    · show offer.fromEpoch + 1 = m.epoch + 1
      rw [ha.epoch]

/-! ## Receiving the acknowledgement -/

/-- The machine after the acknowledgement it waited for. -/
def Machine.acked (m : Machine) : Machine := { m with phase := .idle }

/-- The checks of `acceptAuthenticatedAdvanceAcknowledgement` passed. -/
structure Machine.AcceptsAck (m : Machine) (ack : PqHealingAdvanceAcknowledgement)
    (offer : DecodedOffer) (advance : DecodedAdvance) : Prop where
  awaiting : m.phase = .outboundAdvanceAwaitingAck offer advance
  epoch : ack.epoch = m.epoch
  counter : ack.advanceCounter = advance.senderCounter

theorem acceptAck_run (h : m.WellFormed) {ack : PqHealingAdvanceAcknowledgement}
    {offer : DecodedOffer} {advance : DecodedAdvance} (ha : m.AcceptsAck ack offer advance) :
    (acceptAuthenticatedAdvanceAcknowledgement ack).run m = .ok () m.acked := by
  have hphase := h.phase
  rw [ha.awaiting] at hphase
  have hcounter : ack.advanceCounter ≤ MAX_U64 :=
    ha.counter ▸ (decodeAdvance_spec hphase.1).counter_le
  have hack : requireAcknowledgement ack = .ok ack :=
    requireAcknowledgement_eq (ha.epoch ▸ h.epoch) hcounter
  unfold acceptAuthenticatedAdvanceAcknowledgement
  simp only [run_get_bind, run_attempt_bind, hack, ha.awaiting]
  rw [run_ensure_bind, if_pos ⟨ha.epoch, ha.counter⟩]
  rfl

theorem acceptAck_cases (ack : PqHealingAdvanceAcknowledgement) :
    (∃ e, (acceptAuthenticatedAdvanceAcknowledgement ack).run m = .error e m) ∨
      ∃ offer advance, m.AcceptsAck ack offer advance := by
  unfold acceptAuthenticatedAdvanceAcknowledgement
  rw [run_attempt_bind]
  cases hack : requireAcknowledgement ack with
  | error e => exact .inl ⟨e, rfl⟩
  | ok ack' =>
    have hsame : ack' = ack := by
      simp only [requireAcknowledgement] at hack
      obtain ⟨_, _, hack⟩ := except_bind_eq_ok.mp hack
      obtain ⟨_, _, hack⟩ := except_bind_eq_ok.mp hack
      exact (except_pure_eq_ok.mp hack).symm
    subst hsame
    cases hphase : m.phase with
    | outboundAdvanceAwaitingAck offer advance =>
      by_cases hmatch : ack'.epoch = m.epoch ∧ ack'.advanceCounter = advance.senderCounter
      · exact .inr ⟨offer, advance, hphase, hmatch.1, hmatch.2⟩
      · simp only [run_get_bind, hphase, run_ensure_bind, if_neg hmatch]
        exact .inl ⟨_, rfl⟩
    | _ =>
      simp only [run_get_bind, hphase]
      exact .inl ⟨_, rfl⟩

theorem Machine.WellFormed.acked (h : m.WellFormed) : m.acked.WellFormed :=
  ⟨h.binding, h.root, h.epoch, h.localCounter, h.remoteCounter, h.lastOffer, h.lastAdvance, trivial⟩

/-! ## Receiving the ADVANCE -/

/-- The checks of `acceptAuthenticatedAdvance` passed and the ciphertext opened. -/
structure Machine.AcceptsAdvance (L : LibCrypto) (m : Machine) (record : Bytes)
    (advance : DecodedAdvance) (offer : DecodedOffer) (keyPair : MlKemKeyPair)
    (sharedSecret : Bytes) : Prop where
  decodes : decodeAdvance record m.suite (some m.binding) = .ok advance
  fresh : m.rejectKnownAdvanceReplayOrFork advance = .ok ()
  offered : m.phase = .outboundOffer true offer keyPair
  counter : advance.senderCounter = m.remoteCounter
  epoch : advance.fromEpoch = m.epoch
  answers : advance.offer.bytes = offer.bytes
  decapsulates : L.mlkemDecaps m.suite advance.ciphertext keyPair.secretKey = .ok sharedSecret

/-- The machine that decapsulated an ADVANCE and has not committed it. -/
def Machine.opened (m : Machine) (L : LibCrypto) (offer : DecodedOffer) (advance : DecodedAdvance)
    (keyPair : MlKemKeyPair) (sharedSecret : Bytes) : Machine :=
  { m with
    phase := .inboundAdvancePrepared offer advance keyPair
      (nextRootOf L m.rootKey sharedSecret advance.bytes) }

/-- The machine after the ADVANCE was committed and its acknowledgement dispatched. -/
def Machine.finished (m : Machine) (L : LibCrypto) (advance : DecodedAdvance)
    (sharedSecret : Bytes) : Machine :=
  { m with
    rootKey := nextRootOf L m.rootKey sharedSecret advance.bytes
    epoch := m.epoch + 1
    localCounter := m.localCounter + 1
    remoteCounter := m.remoteCounter + 1
    nextOfferer := .remote
    lastInboundAdvance := some advance
    phase := .idle }

/-- The acknowledgement of an ADVANCE. -/
def ackOf (advance : DecodedAdvance) : PqHealingAdvanceAcknowledgement where
  epoch := advance.toEpoch
  advanceCounter := advance.senderCounter

theorem decapsulate_eq {ciphertext secretKey ss : Bytes} {suite : MlKemParameterSet}
    (hct : ciphertext.length = suite.ciphertextBytes) (hsk : secretKey.length = suite.secretKeyBytes)
    (h : L.mlkemDecaps suite ciphertext secretKey = .ok ss) :
    decapsulate L suite ciphertext secretKey = .ok ss := by
  simp only [decapsulate, demand_of hct, demand_of hsk, ok_bind, h]

section Advance

variable {record ss : Bytes} {advance : DecodedAdvance} {offer : DecodedOffer}
  {keyPair : MlKemKeyPair}

theorem acceptAuthenticatedAdvance_run (h : m.WellFormed)
    (ha : m.AcceptsAdvance L record advance offer keyPair ss) :
    (acceptAuthenticatedAdvance L record).run m = .ok () (m.opened L offer advance keyPair ss) := by
  have hphase := h.phase
  rw [ha.offered] at hphase
  have hss' : requireBytes ss "ML-KEM shared secret" MlKemParameterSet.sharedSecretBytes = .ok () :=
    demand_of (L.length_mlkemDecaps _ _ _ _ ha.decapsulates)
  have hdecap : decapsulate L m.suite advance.ciphertext keyPair.secretKey = .ok ss :=
    decapsulate_eq (decodeAdvance_spec ha.decodes).ciphertext_length hphase.2.2.1 ha.decapsulates
  unfold acceptAuthenticatedAdvance
  simp only [run_get_bind, run_attempt_bind, ha.decodes, ha.fresh, ha.offered,
    requireExpectedCounter_eq_ok.mpr ha.counter, requireExpectedEpoch_eq_ok.mpr ha.epoch]
  rw [run_ensure_bind, if_pos ha.answers]
  simp only [run_attempt_bind, hdecap, hss', deriveNextRoot_eq h.root]
  rfl

theorem acceptAuthenticatedAdvance_cases (h : m.WellFormed) (record : Bytes) :
    (∃ e, (acceptAuthenticatedAdvance L record).run m = .error e m) ∨
      ∃ advance offer keyPair ss, m.AcceptsAdvance L record advance offer keyPair ss := by
  unfold acceptAuthenticatedAdvance
  simp only [run_get_bind, run_attempt_bind]
  cases hdec : decodeAdvance record m.suite (some m.binding) with
  | error e => exact .inl ⟨e, rfl⟩
  | ok advance =>
    rcases check_cases (m.rejectKnownAdvanceReplayOrFork advance) with hfresh | ⟨e, hfresh⟩
    case inr => exact .inl ⟨e, by simp only [hfresh]⟩
    cases hphase : m.phase with
    | outboundOffer dispatched offer keyPair =>
      cases dispatched with
      | false =>
        simp only [hfresh]
        exact .inl ⟨_, rfl⟩
      | true =>
        have hsk : keyPair.secretKey.length = m.suite.secretKeyBytes := by
          have hp := h.phase
          rw [hphase] at hp
          exact hp.2.2.1
        simp only [hfresh, run_attempt_bind]
        rcases check_cases (m.requireExpectedCounter advance.senderCounter) with hc | ⟨e, hc⟩
        case inr => exact .inl ⟨e, by simp only [hc]⟩
        rcases check_cases (m.requireExpectedEpoch advance.fromEpoch) with he | ⟨e, he⟩
        case inr => exact .inl ⟨e, by simp only [hc, he]⟩
        by_cases hans : advance.offer.bytes = offer.bytes
        case neg =>
          simp only [hc, he, run_ensure_bind, if_neg hans]
          exact .inl ⟨_, rfl⟩
        cases hdecap : L.mlkemDecaps m.suite advance.ciphertext keyPair.secretKey with
        | ok ss =>
          exact .inr ⟨advance, offer, keyPair, ss, hdec, hfresh, hphase,
            requireExpectedCounter_eq_ok.mp hc, requireExpectedEpoch_eq_ok.mp he, hans, hdecap⟩
        | error code =>
          have hct := (decodeAdvance_spec hdec).ciphertext_length
          simp only [hc, he, run_ensure_bind, if_pos hans, run_attempt_bind, decapsulate,
            demand_of hct, demand_of hsk, ok_bind, hdecap]
          exact .inl ⟨_, rfl⟩
    | _ =>
      simp only [hfresh]
      exact .inl ⟨_, rfl⟩

/-- The committed machine before its acknowledgement is dispatched. -/
def Machine.committed (m : Machine) (L : LibCrypto) (advance : DecodedAdvance)
    (sharedSecret : Bytes) : Machine :=
  { m.finished L advance sharedSecret with phase := .inboundAdvanceAwaitingAckDispatch advance }

theorem commitAcceptedAdvance_run (ha : m.AcceptsAdvance L record advance offer keyPair ss) :
    commitAcceptedAdvance.run (m.opened L offer advance keyPair ss) =
      .ok (ackOf advance) (m.committed L advance ss) := by
  have hroot : requireBytes (nextRootOf L m.rootKey ss advance.bytes) "candidate PQ root"
      PQ_HEALING_ROOT_BYTES = .ok () := demand_of (length_nextRootOf _ _ _)
  have hto : advance.toEpoch = m.epoch + 1 := by
    rw [(decodeAdvance_spec ha.decodes).to_eq, ha.epoch]
  unfold commitAcceptedAdvance ackOf
  simp only [run_get_bind, Machine.opened, run_attempt_bind, hroot, hto]
  rfl

theorem ackOf_fits (h : m.WellFormed) (ha : m.AcceptsAdvance L record advance offer keyPair ss) :
    AckFits m.binding (ackOf advance) := by
  have hspec := decodeAdvance_spec ha.decodes
  refine ⟨h.binding, ?_, hspec.counter_le⟩
  show advance.toEpoch ≤ MAX_U64
  rw [hspec.to_eq]
  exact hspec.from_lt

theorem markAdvanceAcknowledgementDispatched_run (h : m.WellFormed)
    (ha : m.AcceptsAdvance L record advance offer keyPair ss) :
    (markAdvanceAcknowledgementDispatched (ackOf advance)).run (m.committed L advance ss) =
      .ok () (m.finished L advance ss) := by
  have hfits := ackOf_fits h ha
  have hack : requireAcknowledgement (ackOf advance) = .ok (ackOf advance) :=
    requireAcknowledgement_eq hfits.epoch hfits.advanceCounter
  have hto : (ackOf advance).epoch = (m.committed L advance ss).epoch := by
    show advance.toEpoch = m.epoch + 1
    rw [(decodeAdvance_spec ha.decodes).to_eq, ha.epoch]
  unfold markAdvanceAcknowledgementDispatched
  rw [run_attempt_bind, hack]
  show EStateM.run (do
    ensure ((ackOf advance).epoch = (m.committed L advance ss).epoch ∧
      (ackOf advance).advanceCounter = advance.senderCounter) _
    set (m.finished L advance ss)) (m.committed L advance ss) = _
  rw [run_ensure_bind, if_pos ⟨hto, rfl⟩]
  rfl

theorem Machine.WellFormed.finished (h : m.WellFormed)
    (ha : m.AcceptsAdvance L record advance offer keyPair ss) :
    (m.finished L advance ss).WellFormed := by
  have hphase := h.phase
  rw [ha.offered] at hphase
  obtain ⟨-, -, -, ⟨hlocal, hremote⟩, -⟩ := hphase
  have hspec := decodeAdvance_spec ha.decodes
  have hto : advance.toEpoch = m.epoch + 1 := by rw [hspec.to_eq, ha.epoch]
  have hok : m.AdvanceOk advance := by
    unfold Machine.AdvanceOk
    rw [hspec.bytes_eq]
    exact ha.decodes
  refine ⟨h.binding, length_nextRootOf _ _ _, ?_, hlocal, hremote, ?_, ?_, trivial⟩
  · show m.epoch + 1 ≤ MAX_U64
    rw [← ha.epoch]
    exact hspec.from_lt
  · intro offer' hoffer
    obtain ⟨hok, hepoch, hcounter⟩ := h.lastOffer offer' hoffer
    exact ⟨hok, Nat.le_succ_of_le hepoch, Nat.lt_succ_of_lt hcounter⟩
  · rintro advance' ⟨⟩
    exact ⟨hok, Nat.le_of_eq hto, Nat.lt_succ_of_le (Nat.le_of_eq ha.counter)⟩

end Advance

end PqHealing

end P2Party
