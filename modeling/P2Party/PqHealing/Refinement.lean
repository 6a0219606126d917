import P2Party.PqHealing.Accept
import P2Party.PqHealing.Protocol

/-!
# The runtime refines the abstract protocol

A runtime of an edge stands for a party of the abstract protocol (`Abs`), and a
sealed frame for one of its messages (`Means`). The methods of the runtime then
do what the protocol allows: an offer is an offer (`Abs.offer`), and a frame the
peer sent is refused without effect, answered from a cache with a message sent
before, or received (`Abs.accept`). The protocol's roots are 32-byte PQ roots and
its offers are OFFER records.

Only the AEAD's and the KEM's correctness are used.
-/

namespace P2Party

open Base PqHealing PqControlFrame PqHealingRuntime Healing

namespace HealingRefinement

/-- What the two ends of an edge share: the room's mode, the edge binding and who
owns the first turn. -/
structure Edge where
  pqMode : RoomPqMode
  binding : Bytes
  first : Role

/-- The ML-KEM parameter set of the edge. -/
def Edge.suite (E : Edge) : MlKemParameterSet := roomPqModeToParameterSet E.pqMode

/-- The direction a party seals in. -/
def directionOf : Role → PqControlDirection
  | .initiator => .initiatorToResponder
  | .responder => .responderToInitiator

/-- Messages and parties of this edge. -/
abbrev EdgeMsg := Msg Bytes Bytes

/-- See `EdgeMsg`. -/
abbrev EdgeParty := Party Bytes Bytes

variable (L : LibCrypto) (E : Edge)

/-! ## Frames as messages -/

/-- The record a message is spelled with. -/
inductive Carries (root : Bytes) (epoch : Nat) : Body Bytes Bytes → Bytes → Prop
  | offer {offer : DecodedOffer} {coins secretKey : Bytes}
      (decodes : decodeOffer offer.bytes E.suite (some E.binding) = .ok offer)
      (counter : offer.senderCounter = epoch) (epoch_eq : offer.fromEpoch = epoch)
      (honest : L.mlkemKeypair E.suite coins = .ok (offer.publicKey, secretKey)) :
      Carries root epoch (.offer offer.bytes) offer.bytes
  | advance {advance : DecodedAdvance} {coins ss : Bytes}
      (decodes : decodeAdvance advance.bytes E.suite (some E.binding) = .ok advance)
      (counter : advance.senderCounter = epoch) (epoch_eq : advance.fromEpoch = epoch)
      (encaps : L.mlkemEncaps E.suite advance.offer.publicKey coins = .ok (advance.ciphertext, ss)) :
      Carries root epoch (.advance advance.offer.bytes (nextRootOf L root ss advance.bytes))
        advance.bytes
  | ack {counter : Nat} (pred : counter + 1 = epoch) :
      Carries root epoch .ack (ackRecord E.suite E.binding ⟨epoch, counter⟩)

/-- The frame of party `r` that spells a message. -/
def Means (r : Role) (frame : Bytes) (m : EdgeMsg) : Prop :=
  ∃ record counter nonce, Carries L E m.root m.epoch m.body record ∧ m.root.length = 32 ∧
    Sealable E.suite E.binding record counter m.epoch ∧
    frame = sealedFrame L E.suite m.root E.binding (directionOf r) counter m.epoch record nonce

/-! ## Runtimes as parties -/

/-- The machine's phase and the outbox that goes with it. -/
def PhaseAbs (r : Role) (R : SparsePqHealingState) (x : EdgeParty) : Prop :=
  match x.phase with
  | .idle => R.machine.phase = .idle
  | .offering o => ∃ offer keyPair coins outbox,
      R.machine.phase = .outboundOffer true offer keyPair ∧ offer.bytes = o ∧
      L.mlkemKeypair E.suite coins = .ok (offer.publicKey, keyPair.secretKey) ∧
      R.outbox = some outbox ∧ Means L E r outbox.frame ⟨x.epoch, x.root, .offer o⟩
  | .awaiting o => ∃ offer advance outbox k,
      R.machine.phase = .outboundAdvanceAwaitingAck offer advance ∧ offer.bytes = o ∧
      R.outbox = some outbox ∧ k + 1 = x.epoch ∧
      Means L E r outbox.frame ⟨k, x.roots k, .advance o x.root⟩

/-- The runtime of party `r` stands for `x`. -/
structure Abs (r : Role) (R : SparsePqHealingState) (x : EdgeParty) : Prop where
  wf : R.WellFormed
  mode : R.pqMode = E.pqMode
  binding : R.binding = E.binding
  role : R.amInitiator = decide (r = .initiator)
  epoch : R.machine.epoch = x.epoch
  localCounter : R.machine.localCounter = x.epoch
  remoteCounter : R.machine.remoteCounter = x.epoch
  turn : R.machine.nextOfferer = if owner E.first x.epoch = r then .local else .remote
  root : R.machine.rootKey = x.root
  phase : PhaseAbs L E r R x
  valid : x.Valid E.first r
  cached : ∀ frame ∈ R.cachedAckFrame,
    owner E.first x.epoch = r.peer ∧ Means L E r frame ⟨x.epoch, x.root, .ack⟩

variable {L E} {r : Role} {R : SparsePqHealingState} {x : EdgeParty}

theorem Abs.suite (h : Abs L E r R x) : R.suite = E.suite := congrArg _ h.mode

theorem Abs.machine_suite (h : Abs L E r R x) : R.machine.suite = E.suite :=
  h.wf.suite_eq.trans h.suite

theorem Abs.machine_binding (h : Abs L E r R x) : R.machine.binding = E.binding :=
  h.wf.binding_eq.trans h.binding

theorem Abs.outbound (h : Abs L E r R x) : R.outboundDirection = directionOf r := by
  unfold SparsePqHealingState.outboundDirection
  rw [h.role]
  cases r <;> rfl

theorem Abs.inbound (h : Abs L E r R x) : R.inboundDirection = directionOf r.peer := by
  unfold SparsePqHealingState.inboundDirection
  rw [h.role]
  cases r <;> rfl

theorem Abs.root_length (h : Abs L E r R x) : x.root.length = 32 := by
  rw [← h.root]
  exact h.wf.machine.root

theorem Abs.turn_local (h : Abs L E r R x) (hturn : R.machine.nextOfferer = .local) :
    owner E.first x.epoch = r := by
  by_contra hne
  rw [h.turn, if_neg hne] at hturn
  cases hturn

theorem Abs.turn_remote (h : Abs L E r R x) (hturn : R.machine.nextOfferer = .remote) :
    owner E.first x.epoch = r.peer := by
  rcases Role.eq_or_eq_peer r (owner E.first x.epoch) with heq | heq
  · rw [h.turn, if_pos heq] at hturn
    cases hturn
  · exact heq

/-- The outbox holds a message the party sent. -/
theorem Abs.pending (h : Abs L E r R x) {outbox : PqHealingOutbox} (hob : R.outbox = some outbox) :
    ∃ m, Means L E r outbox.frame m ∧ Sent E.first r x m := by
  have hphase := h.phase
  have hvalid := h.valid
  unfold PhaseAbs at hphase
  unfold Party.Valid at hvalid
  cases hx : x.phase with
  | idle =>
    rw [hx] at hphase
    have hwf := h.wf.phase
    rw [hob, hphase] at hwf
    cases hk : outbox.kind <;> simp [hk, PhaseOfOutbox] at hwf
  | offering o =>
    rw [hx] at hphase hvalid
    obtain ⟨offer, keyPair, coins, outbox', -, -, -, hob', hmeans⟩ := hphase
    cases hob.symm.trans hob'
    exact ⟨_, hmeans, Nat.le_refl _, rfl, hvalid, fun _ => hx⟩
  | awaiting o =>
    rw [hx] at hphase hvalid
    obtain ⟨offer, advance, outbox', k, -, -, hob', hk, hmeans⟩ := hphase
    cases hob.symm.trans hob'
    refine ⟨_, hmeans, ?_, rfl, ?_, ?_, ?_⟩
    · show k ≤ x.epoch
      omega
    · show owner E.first k = r.peer
      have hturn := hvalid.1
      rw [← hk, owner_succ] at hturn
      rw [← hturn, Role.peer_peer]
    · show k < x.epoch
      omega
    · show x.roots (k + 1) = x.root
      rw [hk]
      rfl

/-- The party every edge starts as. -/
def startParty (root : Bytes) : EdgeParty := ⟨0, fun _ => root, .idle⟩

/-- A constructed runtime stands for it. -/
theorem Abs.start {rootSuite : RatchetRootSuite} {root : Bytes} {now : Nat}
    (h : SparsePqHealingState.new E.pqMode rootSuite E.binding root
      (if E.first = r then .local else .remote) (decide (r = .initiator)) now = .ok R) :
    Abs L E r R (startParty root) ∧ R.activeReceiveKeys = .empty := by
  have hwf := new_wellFormed h
  unfold SparsePqHealingState.new Machine.new at h
  simp only [PqHealingRuntime.requireBytes, PqHealing.requireBytes, PqHealing.requireU64,
    requireSafeUint, demand_bind, ite_eq_iff, reduceCtorEq, and_false, or_false] at h
  obtain ⟨-, -, -, h⟩ := h
  obtain ⟨machine, hmachine, h⟩ := except_bind_eq_ok.mp h
  simp only [ite_eq_iff, reduceCtorEq, and_false, or_false, except_pure_eq_ok] at hmachine h
  obtain ⟨-, -, -, -, -, rfl⟩ := hmachine
  obtain ⟨-, rfl⟩ := h
  refine ⟨⟨hwf, rfl, rfl, rfl, rfl, rfl, rfl, rfl, rfl, rfl, trivial, ?_⟩, rfl⟩
  rintro _ ⟨⟩

/-- The runtime the constructor makes for party `r`. -/
def startRuntime (E : Edge) (root : Bytes) (now : Nat) (r : Role) : SparsePqHealingState where
  pqMode := E.pqMode
  rootSuite := roomPqModeToRootSuite E.pqMode
  binding := E.binding
  amInitiator := decide (r = .initiator)
  machine := {
    suite := E.suite
    binding := E.binding
    rootKey := root
    epoch := 0
    localCounter := 0
    remoteCounter := 0
    nextOfferer := if E.first = r then .local else .remote
    phase := .idle
    lastInboundOffer := none
    lastInboundAdvance := none }
  messageRoot := root
  outbox := none
  lastInboundOfferFrame := none
  lastInboundAdvanceFrame := none
  cachedAckFrame := none
  activeReceiveKeys := .empty
  messagesSinceHealing := 0
  lastHealedAt := now

theorem new_startRuntime {root : Bytes} {now : Nat} (hbinding : E.binding.length = 32)
    (hroot : root.length = 32) (hnow : now ≤ MAX_SAFE_INTEGER) (r : Role) :
    SparsePqHealingState.new E.pqMode (roomPqModeToRootSuite E.pqMode) E.binding root
      (if E.first = r then .local else .remote) (decide (r = .initiator)) now =
        .ok (startRuntime E root now r) := by
  have hu64 : ∀ name, PqHealing.requireU64 0 name = .ok () := fun _ => demand_of (by decide)
  unfold SparsePqHealingState.new Machine.new
  simp only [PqHealingRuntime.requireBytes, PqHealing.requireBytes, requireSafeUint, demand_of,
    demand_of hbinding, demand_of hroot, hu64, demand_of hnow, ok_bind]
  rfl

/-- Application traffic changes nothing the protocol sees. -/
theorem Abs.traffic (h : Abs L E r R x) (keys : OrdMap String Bytes) {messages : Nat}
    (hmessages : messages ≤ MAX_SAFE_INTEGER) :
    Abs L E r { R with activeReceiveKeys := keys, messagesSinceHealing := messages } x :=
  ⟨⟨h.wf.machine, h.wf.binding_eq, h.wf.suite_eq, h.wf.rootSuite_eq, h.wf.messageRoot_eq,
    h.wf.lastHealedAt, hmessages, h.wf.phase, h.wf.outbox, h.wf.offerFrame, h.wf.advanceFrame,
    h.wf.ackFrame, h.wf.paired⟩, h.mode, h.binding, h.role, h.epoch, h.localCounter,
    h.remoteCounter, h.turn, h.root, h.phase, h.valid, h.cached⟩

/-! ## Making an offer -/

/-- An offer of the runtime is an offer of the party, and its frame says so. -/
theorem Abs.offer (h : Abs L E r R x) {coins pk sk : Bytes} {nonce : Nonce} {now : Nat}
    (ho : Offered L R coins now pk sk) (hnow : now ≤ MAX_SAFE_INTEGER) :
    ∃ o, x.phase = .idle ∧ owner E.first x.epoch = r ∧
      Abs L E r (R.offerMade L pk sk nonce now) (x.withPhase (.offering o)) ∧
      Means L E r (R.offerFrame L pk nonce) ⟨x.epoch, x.root, .offer o⟩ := by
  have hidle : x.phase = .idle := by
    have hphase := h.phase
    unfold PhaseAbs at hphase
    cases hx : x.phase with
    | idle => rfl
    | offering o =>
      rw [hx] at hphase
      obtain ⟨_, _, _, _, hp, -⟩ := hphase
      exact absurd (ho.offers.idle.symm.trans hp) (by simp)
    | awaiting o =>
      rw [hx] at hphase
      obtain ⟨_, _, _, _, hp, -⟩ := hphase
      exact absurd (ho.offers.idle.symm.trans hp) (by simp)
  have hturn := h.turn_local ho.offers.turn
  obtain ⟨hpk, -⟩ := L.length_mlkemKeypair _ _ _ _ ho.offers.keyPair
  have hdec := Machine.localOffer_ok h.wf.machine ho.offers.start hpk
  rw [Machine.OfferOk, h.machine_suite, h.machine_binding] at hdec
  have hkp := ho.offers.keyPair
  rw [h.machine_suite] at hkp
  have hmeans : Means L E r (R.offerFrame L pk nonce)
      ⟨x.epoch, x.root, .offer (R.machine.localOffer pk).bytes⟩ := by
    have hseal := offer_sealable h.wf ho.offers
    rw [h.suite, h.binding, h.localCounter, h.epoch] at hseal
    refine ⟨_, x.epoch, nonce, .offer hdec h.localCounter h.epoch hkp, h.root_length, hseal, ?_⟩
    unfold SparsePqHealingState.offerFrame SparsePqHealingState.frameOf
    rw [h.suite, h.binding, h.outbound, h.localCounter, h.epoch, h.root]
  refine ⟨_, hidle, hturn, ?_, hmeans⟩
  refine ⟨h.wf.offerMade ho hnow, h.mode, h.binding, h.role, h.epoch, h.localCounter,
    h.remoteCounter, h.turn, h.root, ?_, hturn, ?_⟩
  · exact ⟨_, _, coins, _, rfl, rfl, hkp, rfl, hmeans⟩
  · rintro _ ⟨⟩

/-- One more dispatch of the outbox changes nothing the protocol sees. -/
theorem Abs.dispatched (h : Abs L E r R x) {outbox : PqHealingOutbox} {now : Nat}
    (hob : R.outbox = some outbox) (hattempts : outbox.attempts < PQ_HEAL_MAX_RETRIES)
    (hnow : now ≤ MAX_TIME_VALUE) : Abs L E r (R.dispatched now) x := by
  refine ⟨h.wf.dispatched hob hattempts hnow, h.mode, h.binding, h.role, h.epoch, h.localCounter,
    h.remoteCounter, h.turn, h.root, ?_, h.valid, h.cached⟩
  have hphase := h.phase
  unfold PhaseAbs at hphase ⊢
  cases hx : x.phase with
  | idle =>
    rw [hx] at hphase
    exact hphase
  | offering o =>
    rw [hx] at hphase
    obtain ⟨offer, keyPair, coins, outbox', hp, ho, hkp, hob', hmeans⟩ := hphase
    refine ⟨offer, keyPair, coins, { outbox' with
      attempts := outbox'.attempts + 1
      nextRetryAt := now + PQ_HEAL_RETRY_MS }, hp, ho, hkp, ?_, hmeans⟩
    rw [SparsePqHealingState.dispatched, hob']
    rfl
  | awaiting o =>
    rw [hx] at hphase
    obtain ⟨offer, advance, outbox', k, hp, ho, hob', hk, hmeans⟩ := hphase
    refine ⟨offer, advance, { outbox' with
      attempts := outbox'.attempts + 1
      nextRetryAt := now + PQ_HEAL_RETRY_MS }, k, hp, ho, ?_, hk, hmeans⟩
    rw [SparsePqHealingState.dispatched, hob']
    rfl

/-! ## Opening a frame of the peer -/

/-- A frame of the peer opens only at its own epoch, and to its own record. -/
theorem Abs.opens (hA : L.AeadLaws) (h : Abs L E r R x) {frame record : Bytes} {m : EdgeMsg}
    (hm : Means L E r.peer frame m) (hroot : m.epoch = x.epoch → m.root = x.root)
    (hopen : R.Opens L frame record) :
    m.epoch = x.epoch ∧ Carries L E x.root x.epoch m.body record := by
  obtain ⟨record', counter, nonce, hcarries, hlen, hseal, rfl⟩ := hm
  unfold SparsePqHealingState.Opens at hopen
  rw [h.suite, h.binding, h.inbound, h.epoch, h.root] at hopen
  by_cases hepoch : m.epoch = x.epoch
  · rw [hroot hepoch, hepoch] at hcarries
    rw [hepoch] at hseal
    rw [hroot hepoch, hepoch, openPqControlFrame_sealedFrame hA hseal h.root_length] at hopen
    cases hopen
    exact ⟨hepoch, hcarries⟩
  · have hmax : x.epoch ≤ MAX_U64 := h.epoch ▸ h.wf.machine.epoch
    rw [openPqControlFrame_wrong_epoch hseal hmax hepoch] at hopen
    cases hopen

theorem byteAt_ackRecord (suite : MlKemParameterSet) (binding : Bytes)
    (ack : PqHealingAdvanceAcknowledgement) : byteAt (ackRecord suite binding ack) 5 = ACK_TYPE := rfl

/-- An OFFER record spells an offer. -/
theorem Carries.offer_inv {root record : Bytes} {epoch : Nat} {body : Body Bytes Bytes}
    {offer : DecodedOffer} (h : Carries L E root epoch body record)
    (hdec : decodeOffer record E.suite (some E.binding) = .ok offer) :
    body = .offer offer.bytes ∧ offer.bytes = record ∧
      ∃ coins secretKey, L.mlkemKeypair E.suite coins = .ok (offer.publicKey, secretKey) := by
  have hspec := decodeOffer_spec hdec
  cases h with
  | offer decodes counter epoch_eq honest =>
    cases decodes.symm.trans hdec
    exact ⟨rfl, rfl, _, _, honest⟩
  | advance decodes =>
    have htype := (decodeAdvance_spec decodes).type_eq
    rw [hspec.type_eq] at htype
    exact absurd htype (by decide)
  | ack pred =>
    have htype := hspec.type_eq
    rw [byteAt_ackRecord] at htype
    exact absurd htype (by decide)

/-- An ADVANCE record spells an advance. -/
theorem Carries.advance_inv {root record : Bytes} {epoch : Nat} {body : Body Bytes Bytes}
    {advance : DecodedAdvance} (h : Carries L E root epoch body record)
    (hdec : decodeAdvance record E.suite (some E.binding) = .ok advance) :
    ∃ coins ss, L.mlkemEncaps E.suite advance.offer.publicKey coins = .ok (advance.ciphertext, ss) ∧
      body = .advance advance.offer.bytes (nextRootOf L root ss advance.bytes) := by
  have hspec := decodeAdvance_spec hdec
  cases h with
  | offer decodes =>
    have htype := (decodeOffer_spec decodes).type_eq
    rw [hspec.type_eq] at htype
    exact absurd htype (by decide)
  | advance decodes counter epoch_eq encaps =>
    cases decodes.symm.trans hdec
    exact ⟨_, _, encaps, rfl⟩
  | ack pred =>
    have htype := hspec.type_eq
    rw [byteAt_ackRecord] at htype
    exact absurd htype (by decide)

/-- A record of an acknowledgement's length spells an acknowledgement. -/
theorem Carries.ack_inv {root record : Bytes} {epoch : Nat} {body : Body Bytes Bytes}
    (h : Carries L E root epoch body record) (hlen : record.length = PQ_HEALING_ACK_BYTES) :
    body = .ack := by
  cases h with
  | offer decodes =>
    rw [(decodeOffer_spec decodes).length_eq] at hlen
    exact absurd hlen (Nat.ne_of_gt (offerLength_bounds E.suite).1)
  | advance decodes =>
    rw [(decodeAdvance_spec decodes).length_eq] at hlen
    exact absurd hlen (Nat.ne_of_gt (advanceLength_bounds E.suite).1)
  | ack pred => rfl

/-! ## Receiving a frame of the peer -/

/-- What a call of `acceptControlFrame` on the peer's message `m` did. -/
inductive AcceptOutcome (L : LibCrypto) (E : Edge) (r : Role) (R : SparsePqHealingState)
    (x : EdgeParty) (m : EdgeMsg) :
    EStateM.Result JsError SparsePqHealingState PqHealingControlResult → Prop
  | refused (e : JsError) : AcceptOutcome L E r R x m (.error e R)
  | repeated {frame : Bytes} {m' : EdgeMsg} (means : Means L E r frame m')
      (sent : Sent E.first r x m') : AcceptOutcome L E r R x m (.ok ⟨some frame, false⟩ R)
  | received {dispatch : Option Bytes} {R' : SparsePqHealingState} {x' : EdgeParty}
      (receives : Receives E.first r x m x') (abs : Abs L E r R' x')
      (sends : ∀ frame ∈ dispatch, ∃ m', Means L E r frame m' ∧ Sent E.first r x' m') :
      AcceptOutcome L E r R x m (.ok ⟨dispatch, true⟩ R')

section Accept

variable {frame coins : Bytes} {nonce : Nonce} {now : Nat} {m : EdgeMsg}

theorem Abs.phase_idle (h : Abs L E r R x) (hp : R.machine.phase = .idle) : x.phase = .idle := by
  have hphase := h.phase
  unfold PhaseAbs at hphase
  cases hx : x.phase with
  | idle => rfl
  | offering o =>
    rw [hx] at hphase
    obtain ⟨_, _, _, _, hp', -⟩ := hphase
    exact absurd (hp.symm.trans hp') (by simp)
  | awaiting o =>
    rw [hx] at hphase
    obtain ⟨_, _, _, _, hp', -⟩ := hphase
    exact absurd (hp.symm.trans hp') (by simp)

theorem Abs.phase_offering (h : Abs L E r R x) {offer : DecodedOffer} {keyPair : MlKemKeyPair}
    (hp : R.machine.phase = .outboundOffer true offer keyPair) :
    x.phase = .offering offer.bytes ∧ owner E.first x.epoch = r ∧
      ∃ coins, L.mlkemKeypair E.suite coins = .ok (offer.publicKey, keyPair.secretKey) := by
  have hphase := h.phase
  have hvalid := h.valid
  unfold PhaseAbs at hphase
  unfold Party.Valid at hvalid
  cases hx : x.phase with
  | idle =>
    rw [hx] at hphase
    exact absurd (hp.symm.trans hphase) (by simp)
  | offering o =>
    rw [hx] at hphase hvalid
    obtain ⟨_, _, coins, _, hp', rfl, hkp, -⟩ := hphase
    cases hp.symm.trans hp'
    exact ⟨rfl, hvalid, coins, hkp⟩
  | awaiting o =>
    rw [hx] at hphase
    obtain ⟨_, _, _, _, hp', -⟩ := hphase
    exact absurd (hp.symm.trans hp') (by simp)

theorem Abs.phase_awaiting (h : Abs L E r R x) {offer : DecodedOffer} {advance : DecodedAdvance}
    (hp : R.machine.phase = .outboundAdvanceAwaitingAck offer advance) :
    x.phase = .awaiting offer.bytes := by
  have hphase := h.phase
  unfold PhaseAbs at hphase
  cases hx : x.phase with
  | idle =>
    rw [hx] at hphase
    exact absurd (hp.symm.trans hphase) (by simp)
  | offering o =>
    rw [hx] at hphase
    obtain ⟨_, _, _, _, hp', -⟩ := hphase
    exact absurd (hp.symm.trans hp') (by simp)
  | awaiting o =>
    rw [hx] at hphase
    obtain ⟨_, _, _, _, hp', rfl, -⟩ := hphase
    cases hp.symm.trans hp'
    rfl

/-- A received OFFER is answered. -/
theorem Abs.answered (hA : L.AeadLaws) (h : Abs L E r R x) (hm : Means L E r.peer frame m)
    (hroot : m.epoch = x.epoch → m.root = x.root) {record ct ss : Bytes} {offer : DecodedOffer}
    (fresh : Fresh L R frame now record) (accepts : R.machine.AcceptsOffer record offer)
    (encaps : L.mlkemEncaps R.machine.suite offer.publicKey coins = .ok (ct, ss)) :
    AcceptOutcome L E r R x m (.ok ⟨some (R.advanceFrame L offer ct nonce), true⟩
      (R.offerAnswered L frame offer ct ss nonce now)) := by
  obtain ⟨hepoch, hcarries⟩ := h.opens hA hm hroot fresh.opens
  have hdec := accepts.decodes
  rw [h.machine_suite, h.machine_binding] at hdec
  obtain ⟨hbody, -, -⟩ := hcarries.offer_inv hdec
  have hidle := h.phase_idle accepts.idle
  have hturn := h.turn_remote accepts.turn
  obtain ⟨hct, -⟩ := L.length_mlkemEncaps _ _ _ _ _ encaps
  have hadvance := Machine.localAdvance_ok h.wf.machine accepts hct
  rw [Machine.AdvanceOk, h.machine_suite, h.machine_binding] at hadvance
  have hencaps := encaps
  rw [h.machine_suite] at hencaps
  have hmeans : Means L E r (R.advanceFrame L offer ct nonce) ⟨x.epoch, x.root,
      .advance offer.bytes (R.machine.answered L offer ct ss).rootKey⟩ := by
    have hseal := advance_sealable h.wf accepts hct
    rw [h.suite, h.binding, h.localCounter, h.epoch] at hseal
    have hfrom : (R.machine.localAdvance offer ct).fromEpoch = x.epoch :=
      accepts.epoch.trans h.epoch
    have hcarry := @Carries.advance L E x.root x.epoch (R.machine.localAdvance offer ct) coins ss
      hadvance h.localCounter hfrom hencaps
    rw [← h.root] at hcarry
    refine ⟨_, x.epoch, nonce, ?_, h.root_length, hseal, ?_⟩
    · rw [← h.root]
      exact hcarry
    · unfold SparsePqHealingState.advanceFrame SparsePqHealingState.frameOf
      rw [h.suite, h.binding, h.outbound, h.localCounter, h.epoch, h.root]
  obtain ⟨mepoch, mroot, mbody⟩ := m
  cases hepoch
  cases hbody
  refine .received (.answer offer.bytes (R.machine.answered L offer ct ss).rootKey hidle hturn) ?_ ?_
  · have hwf := (@Accepted.offer L R frame coins nonce now _ _ _ _ fresh accepts encaps).wellFormed h.wf
    refine ⟨hwf, h.mode, h.binding, h.role, ?_, ?_, ?_, ?_, ?_, ?_, ?_, ?_⟩
    · exact congrArg (· + 1) h.epoch
    · exact congrArg (· + 1) h.localCounter
    · exact congrArg (· + 1) h.remoteCounter
    · show PqHealingTurn.local = if (owner E.first x.epoch).peer = r then .local else .remote
      rw [hturn, Role.peer_peer, if_pos rfl]
    · exact (x.commit_root _ _).symm
    · refine ⟨offer, _, _, x.epoch, rfl, rfl, rfl, rfl, ?_⟩
      rw [x.commit_roots_of_le _ _ (Nat.le_refl _), x.commit_root]
      exact hmeans
    · exact (LocalStep.answer offer.bytes _ hidle hturn).valid
    · rintro _ ⟨⟩
  · rintro _ ⟨⟩
    exact ⟨_, hmeans, sent_advance hturn⟩

/-- A received ADVANCE is committed and acknowledged. -/
theorem Abs.finished (hA : L.AeadLaws) (hK : L.KemLaws) (h : Abs L E r R x)
    (hm : Means L E r.peer frame m) (hroot : m.epoch = x.epoch → m.root = x.root)
    {record ss : Bytes} {advance : DecodedAdvance} {offer : DecodedOffer} {keyPair : MlKemKeyPair}
    (fresh : Fresh L R frame now record)
    (accepts : R.machine.AcceptsAdvance L record advance offer keyPair ss) :
    AcceptOutcome L E r R x m (.ok ⟨some (R.ackFrame L advance ss nonce), true⟩
      (R.advanceTaken L frame advance ss nonce now)) := by
  obtain ⟨hepoch, hcarries⟩ := h.opens hA hm hroot fresh.opens
  have hdec := accepts.decodes
  rw [h.machine_suite, h.machine_binding] at hdec
  obtain ⟨coins', ss', hencaps, hbody⟩ := hcarries.advance_inv hdec
  obtain ⟨hoffering, hturn, coins'', hkp⟩ := h.phase_offering accepts.offered
  -- the ADVANCE embeds the very offer this party made
  have hoffer : advance.offer = offer := by
    have hown : R.machine.OfferOk offer := by
      have hphase := h.wf.machine.phase
      rw [accepts.offered] at hphase
      exact hphase.1
    have hembedded := (decodeAdvance_spec hdec).offer_decodes
    rw [Machine.OfferOk, h.machine_suite, h.machine_binding, ← accepts.answers] at hown
    exact Except.ok.inj (hembedded.symm.trans hown)
  rw [hoffer] at hbody hencaps
  have hss : ss = ss' := by
    obtain ⟨ct₀, ss₀, henc₀, hdecaps₀⟩ := hK.correct _ _ _ _ coins' hkp
    cases hencaps.symm.trans henc₀
    have hdecaps := accepts.decapsulates
    rw [h.machine_suite] at hdecaps
    exact Except.ok.inj (hdecaps.symm.trans hdecaps₀)
  subst hss
  have hto : advance.toEpoch = x.epoch + 1 := by
    rw [(decodeAdvance_spec hdec).to_eq, accepts.epoch, h.epoch]
  have hcounter : advance.senderCounter = x.epoch := accepts.counter.trans h.remoteCounter
  have hmeans : Means L E r (R.ackFrame L advance ss nonce)
      ⟨x.epoch + 1, nextRootOf L x.root ss advance.bytes, .ack⟩ := by
    have hseal := ack_sealable h.wf accepts
    rw [h.suite, h.binding, h.epoch, hcounter] at hseal
    have hack : ackOf advance = ⟨x.epoch + 1, x.epoch⟩ := by
      rw [ackOf, hto, hcounter]
    rw [hack] at hseal
    refine ⟨_, x.epoch, nonce, .ack rfl, length_nextRootOf _ _ _, hseal, ?_⟩
    unfold SparsePqHealingState.ackFrame
    rw [h.suite, h.binding, h.outbound, h.epoch, hcounter, hack, ← h.root]
    rfl
  have hnext : (R.machine.finished L advance ss).rootKey = nextRootOf L x.root ss advance.bytes := by
    rw [← h.root]
    rfl
  obtain ⟨mepoch, mroot, mbody⟩ := m
  cases hepoch
  cases hbody
  refine .received (.finish offer.bytes _ hoffering) ?_ ?_
  · have hwf := (@Accepted.advance L R frame [] nonce now _ _ _ _ _ fresh accepts).wellFormed h.wf
    refine ⟨hwf, h.mode, h.binding, h.role, ?_, ?_, ?_, ?_, ?_, rfl, trivial, ?_⟩
    · exact congrArg (· + 1) h.epoch
    · exact congrArg (· + 1) h.localCounter
    · exact congrArg (· + 1) h.remoteCounter
    · show PqHealingTurn.remote = if (owner E.first x.epoch).peer = r then .local else .remote
      rw [hturn, if_neg (Role.peer_ne r)]
    · rw [x.commit_root]
      exact hnext
    · rintro _ ⟨⟩
      refine ⟨by rw [x.commit_epoch, owner_succ, hturn], ?_⟩
      rw [x.commit_root]
      exact hmeans
  · rintro _ ⟨⟩
    exact ⟨_, hmeans, sent_ack hturn⟩

/-- A received acknowledgement ends the wait. -/
theorem Abs.acked (hA : L.AeadLaws) (h : Abs L E r R x) (hm : Means L E r.peer frame m)
    (hroot : m.epoch = x.epoch → m.root = x.root) {record : Bytes}
    {ack : PqHealingAdvanceAcknowledgement} {offer : DecodedOffer} {advance : DecodedAdvance}
    (fresh : Fresh L R frame now record)
    (decodes : decodePqHealingAck record R.suite R.binding = .ok ack)
    (accepts : R.machine.AcceptsAck ack offer advance) :
    AcceptOutcome L E r R x m (.ok ⟨none, true⟩ (R.ackTaken now)) := by
  obtain ⟨hepoch, hcarries⟩ := h.opens hA hm hroot fresh.opens
  have hbody := hcarries.ack_inv (decodePqHealingAck_length decodes)
  have hawaiting := h.phase_awaiting accepts.awaiting
  obtain ⟨mepoch, mroot, mbody⟩ := m
  cases hepoch
  cases hbody
  refine .received (.acked offer.bytes hawaiting) ?_ (by rintro _ ⟨⟩)
  refine ⟨h.wf.ackTaken fresh.clock, h.mode, h.binding, h.role, h.epoch, h.localCounter,
    h.remoteCounter, h.turn, h.root, rfl, trivial, ?_⟩
  rintro _ ⟨⟩

/-- The public key of an offer that the peer made is honest, so encapsulating to it cannot fail. -/
theorem not_stuck (hA : L.AeadLaws) (hK : L.KemLaws) (h : Abs L E r R x)
    (hm : Means L E r.peer frame m) (hroot : m.epoch = x.epoch → m.root = x.root) {record : Bytes}
    {offer : DecodedOffer} {code : Int} (fresh : Fresh L R frame now record)
    (accepts : R.machine.AcceptsOffer record offer) :
    L.mlkemEncaps R.machine.suite offer.publicKey coins ≠ .error code := by
  intro hstuck
  obtain ⟨-, hcarries⟩ := h.opens hA hm hroot fresh.opens
  have hdec := accepts.decodes
  rw [h.machine_suite, h.machine_binding] at hdec
  obtain ⟨-, -, coins', sk, hkp⟩ := hcarries.offer_inv hdec
  obtain ⟨ct, ss, henc, -⟩ := hK.correct _ _ _ _ coins hkp
  rw [← h.machine_suite, hstuck] at henc
  cases henc

/-- A frame the peer sent is refused without effect, answered with a message sent
before, or received. -/
theorem Abs.accept (hA : L.AeadLaws) (hK : L.KemLaws) (h : Abs L E r R x)
    (hm : Means L E r.peer frame m) (hroot : m.epoch = x.epoch → m.root = x.root) (coins : Bytes)
    (nonce : Nonce) (now : Nat) :
    AcceptOutcome L E r R x m ((acceptControlFrame L frame coins nonce now).run R) := by
  rcases @acceptControlFrame_cases L R h.wf frame coins nonce now with
    ⟨e, R', hrefused, hrun⟩ | ⟨result, R', haccepted⟩
  · rw [hrun]
    cases hrefused with
    | unchanged => exact .refused e
    | stuck fresh accepts encaps => exact absurd encaps (not_stuck hA hK h hm hroot fresh accepts)
  · rw [acceptControlFrame_run h.wf haccepted]
    cases haccepted with
    | repeatedOffer length clock repeats pending =>
      obtain ⟨m', hmeans, hsent⟩ := h.pending pending
      exact .repeated hmeans hsent
    | repeatedAdvance length clock notOffer repeats cached =>
      obtain ⟨hturn, hmeans⟩ := h.cached _ cached
      exact .repeated hmeans ⟨Nat.le_refl _, rfl, hturn⟩
    | acknowledgement fresh decodes accepts => exact h.acked hA hm hroot fresh decodes accepts
    | offer fresh accepts encaps => exact h.answered hA hm hroot fresh accepts encaps
    | advance fresh accepts => exact h.finished hA hK hm hroot fresh accepts

end Accept

end HealingRefinement

end P2Party
