import P2Party.PqHealing.Runtime

/-!
# Everything an offer or a received control frame can do

The runtime's two protocol methods as case lists. `Offered` and `Accepted` name
what the checks established and the runtime left behind; each list is complete
(`prepareHealingOffer_cases`, `acceptControlFrame_cases`) and each case happens
when its conditions hold (`prepareHealingOffer_run`, `acceptControlFrame_run`).

- `offerMade`, `ackTaken`, `offerAnswered`, `advanceTaken`: the resulting runtimes;
- `WellFormed.offerMade`, ...: they are well formed;
- `Refused`: a call that throws changes nothing, or leaves a
  received OFFER that could not be encapsulated to.
-/

namespace P2Party

open Base PqHealing PqControlFrame

namespace PqHealingRuntime

variable {L : LibCrypto} {r : SparsePqHealingState}

namespace SparsePqHealingState

/-- The frame that carries a record of the current epoch. -/
def frameOf (L : LibCrypto) (r : SparsePqHealingState) (counter : Nat) (record : Bytes)
    (nonce : Nonce) : Bytes :=
  sealedFrame L r.suite r.machine.rootKey r.binding r.outboundDirection counter r.machine.epoch
    record nonce

/-- The frame of the OFFER with a public key. -/
def offerFrame (L : LibCrypto) (r : SparsePqHealingState) (publicKey : Bytes) (nonce : Nonce) :
    Bytes :=
  r.frameOf L r.machine.localCounter (r.machine.localOffer publicKey).bytes nonce

/-- The runtime that made an OFFER. -/
def offerMade (L : LibCrypto) (r : SparsePqHealingState) (publicKey secretKey : Bytes)
    (nonce : Nonce) (now : Nat) : SparsePqHealingState :=
  { r with
    machine := r.machine.offering publicKey secretKey true
    outbox := some ⟨.offer, r.offerFrame L publicKey nonce, 0, now⟩
    lastInboundOfferFrame := none
    lastInboundAdvanceFrame := none
    cachedAckFrame := none }

/-- The runtime whose ADVANCE was acknowledged. -/
def ackTaken (r : SparsePqHealingState) (now : Nat) : SparsePqHealingState :=
  { r with
    machine := r.machine.acked
    messageRoot := r.machine.rootKey
    outbox := none
    lastInboundOfferFrame := none
    lastInboundAdvanceFrame := none
    cachedAckFrame := none
    messagesSinceHealing := 0
    lastHealedAt := now }

/-- The frame of the ADVANCE that answers an OFFER. -/
def advanceFrame (L : LibCrypto) (r : SparsePqHealingState) (offer : DecodedOffer)
    (ciphertext : Bytes) (nonce : Nonce) : Bytes :=
  r.frameOf L r.machine.localCounter (r.machine.localAdvance offer ciphertext).bytes nonce

/-- The runtime that answered the OFFER in `frame`. -/
def offerAnswered (L : LibCrypto) (r : SparsePqHealingState) (frame : Bytes) (offer : DecodedOffer)
    (ciphertext sharedSecret : Bytes) (nonce : Nonce) (now : Nat) : SparsePqHealingState :=
  { r with
    machine := r.machine.answered L offer ciphertext sharedSecret
    messageRoot := (r.machine.answered L offer ciphertext sharedSecret).rootKey
    outbox := some ⟨.advance, r.advanceFrame L offer ciphertext nonce, 0, now⟩
    lastInboundOfferFrame := some frame
    lastInboundAdvanceFrame := none
    cachedAckFrame := none }

/-- The frame that acknowledges an ADVANCE, sealed under the root it committed. -/
def ackFrame (L : LibCrypto) (r : SparsePqHealingState) (advance : DecodedAdvance)
    (sharedSecret : Bytes) (nonce : Nonce) : Bytes :=
  sealedFrame L r.suite (r.machine.finished L advance sharedSecret).rootKey r.binding
    r.outboundDirection advance.senderCounter (r.machine.epoch + 1)
    (ackRecord r.suite r.binding (ackOf advance)) nonce

/-- The runtime that committed the ADVANCE in `frame`. -/
def advanceTaken (L : LibCrypto) (r : SparsePqHealingState) (frame : Bytes)
    (advance : DecodedAdvance) (sharedSecret : Bytes) (nonce : Nonce) (now : Nat) :
    SparsePqHealingState :=
  { r with
    machine := r.machine.finished L advance sharedSecret
    messageRoot := (r.machine.finished L advance sharedSecret).rootKey
    outbox := none
    lastInboundAdvanceFrame := some frame
    cachedAckFrame := some (r.ackFrame L advance sharedSecret nonce)
    lastInboundOfferFrame := none
    messagesSinceHealing := 0
    lastHealedAt := now }

/-- The runtime that holds an OFFER it could not answer. -/
def offerStuck (r : SparsePqHealingState) (offer : DecodedOffer) : SparsePqHealingState :=
  { r with machine := r.machine.received offer }

end SparsePqHealingState

/-! ## Making an offer -/

/-- The checks of `prepareHealingOffer` passed with this key pair. -/
structure Offered (L : LibCrypto) (r : SparsePqHealingState) (coins : Bytes) (now : Nat)
    (publicKey secretKey : Bytes) : Prop where
  due : r.healingDue now = .ok true
  offers : r.machine.Offers L coins publicKey secretKey

theorem offer_sealable (h : r.WellFormed) {coins pk sk : Bytes}
    (ho : r.machine.Offers L coins pk sk) :
    Sealable r.suite r.binding (r.machine.localOffer pk).bytes r.machine.localCounter
      r.machine.epoch := by
  obtain ⟨hpk, -⟩ := L.length_mlkemKeypair _ _ _ _ ho.keyPair
  have hok := Machine.localOffer_ok h.machine ho.start hpk
  rw [Machine.OfferOk, h.suite_eq, h.binding_eq] at hok
  exact sealable_offer h.binding_length hok

theorem prepareHealingOffer_run (h : r.WellFormed) {coins pk sk : Bytes} {nonce : Nonce} {now : Nat}
    (ho : Offered L r coins now pk sk) :
    (prepareHealingOffer L coins nonce now).run r =
      .ok (r.offerFrame L pk nonce) (r.offerMade L pk sk nonce now) := by
  have hseal := @sealPqControlFrame_eq L _ _ _ _ r.outboundDirection _ _ nonce
    (offer_sealable h ho.offers) h.machine.root
  unfold prepareHealingOffer prepareHealingOfferWith
  rw [run_get_bind, run_attempt_of_ok ho.due, run_ensure_of rfl,
    run_bind_of_ok (onMachine_ok (prepareOffer_run h.machine ho.offers)), run_get_bind]
  refine (run_attempt_of_ok ((sealOrFail_false _).trans hseal)).trans ?_
  rw [run_bind_of_ok (onMachine_ok (markOfferDispatched_run pk sk))]
  rfl

theorem prepareHealingOfferWith_cases (fails : Bool) (coins : Bytes) (nonce : Nonce) (now : Nat) :
    (∃ e, (prepareHealingOfferWith L fails coins nonce now).run r = .error e r) ∨
      ∃ pk sk, Offered L r coins now pk sk := by
  unfold prepareHealingOfferWith
  rw [run_get_bind, run_attempt_bind]
  cases hdue : r.healingDue now with
  | error e => exact .inl ⟨e, rfl⟩
  | ok due =>
    cases due with
    | false => exact .inl ⟨_, rfl⟩
    | true =>
      rcases @prepareOffer_cases L r.machine coins with ⟨e, he⟩ | ⟨pk, sk, ho⟩
      · exact .inl ⟨e, (run_ensure_of rfl).trans (run_bind_of_error (onMachine_error he))⟩
      · exact .inr ⟨pk, sk, hdue, ho⟩

theorem SparsePqHealingState.WellFormed.offerMade (h : r.WellFormed) {coins pk sk : Bytes}
    {nonce : Nonce} {now : Nat} (ho : Offered L r coins now pk sk) (hnow : now ≤ MAX_SAFE_INTEGER) :
    (r.offerMade L pk sk nonce now).WellFormed := by
  refine ⟨h.machine.offering ho.offers true, h.binding_eq, h.suite_eq, h.rootSuite_eq,
    h.messageRoot_eq, h.lastHealedAt, h.messages, trivial, ?_, ?_, ?_, ?_, rfl⟩
  · rintro _ ⟨⟩
    exact ⟨length_sealedFrame (offer_sealable h ho.offers), Nat.zero_le _, hnow⟩
  all_goals rintro _ ⟨⟩

/-! ## Accepting a frame -/

namespace SparsePqHealingState

/-- The frame is the OFFER that the current ADVANCE answers. -/
def RepeatsOffer (r : SparsePqHealingState) (frame : Bytes) : Prop :=
  r.lastInboundOfferFrame = some frame ∧ r.outboxIs .advance = true

/-- The frame is the ADVANCE whose acknowledgement is cached. -/
def RepeatsAdvance (r : SparsePqHealingState) (frame : Bytes) : Prop :=
  r.lastInboundAdvanceFrame = some frame ∧ r.cachedAckFrame.isSome

instance (r : SparsePqHealingState) (frame : Bytes) : Decidable (r.RepeatsOffer frame) :=
  inferInstanceAs (Decidable (_ ∧ _))

instance (r : SparsePqHealingState) (frame : Bytes) : Decidable (r.RepeatsAdvance frame) :=
  inferInstanceAs (Decidable (_ ∧ _))

/-- The frame opens to this record at the current root and epoch. -/
def Opens (L : LibCrypto) (r : SparsePqHealingState) (frame record : Bytes) : Prop :=
  openPqControlFrame L r.suite r.machine.rootKey r.binding r.inboundDirection r.machine.epoch
    frame = .ok record

end SparsePqHealingState

/-- What is checked before the record of a frame is looked at. -/
structure Fresh (L : LibCrypto) (r : SparsePqHealingState) (frame : Bytes) (now : Nat)
    (record : Bytes) : Prop where
  length : frame.length = WIRE_CHUNK_FRAME_LEN
  clock : now ≤ MAX_SAFE_INTEGER
  notOffer : ¬ r.RepeatsOffer frame
  notAdvance : ¬ r.RepeatsAdvance frame
  opens : r.Opens L frame record

/-- The calls of `acceptControlFrame` that return, with their result and the
runtime they leave behind. -/
inductive Accepted (L : LibCrypto) (r : SparsePqHealingState) (frame coins : Bytes) (nonce : Nonce)
    (now : Nat) : PqHealingControlResult → SparsePqHealingState → Prop
  | repeatedOffer {outbox : PqHealingOutbox} (length : frame.length = WIRE_CHUNK_FRAME_LEN)
      (clock : now ≤ MAX_SAFE_INTEGER) (repeats : r.RepeatsOffer frame)
      (pending : r.outbox = some outbox) :
      Accepted L r frame coins nonce now ⟨some outbox.frame, false⟩ r
  | repeatedAdvance {ack : Bytes} (length : frame.length = WIRE_CHUNK_FRAME_LEN)
      (clock : now ≤ MAX_SAFE_INTEGER) (notOffer : ¬ r.RepeatsOffer frame)
      (repeats : r.RepeatsAdvance frame) (cached : r.cachedAckFrame = some ack) :
      Accepted L r frame coins nonce now ⟨some ack, false⟩ r
  | acknowledgement {record : Bytes} {ack : PqHealingAdvanceAcknowledgement} {offer : DecodedOffer}
      {advance : DecodedAdvance} (fresh : Fresh L r frame now record)
      (decodes : decodePqHealingAck record r.suite r.binding = .ok ack)
      (accepts : r.machine.AcceptsAck ack offer advance) :
      Accepted L r frame coins nonce now ⟨none, true⟩ (r.ackTaken now)
  | offer {record ct ss : Bytes} {offer : DecodedOffer} (fresh : Fresh L r frame now record)
      (accepts : r.machine.AcceptsOffer record offer)
      (encaps : L.mlkemEncaps r.machine.suite offer.publicKey coins = .ok (ct, ss)) :
      Accepted L r frame coins nonce now ⟨some (r.advanceFrame L offer ct nonce), true⟩
        (r.offerAnswered L frame offer ct ss nonce now)
  | advance {record ss : Bytes} {advance : DecodedAdvance} {offer : DecodedOffer}
      {keyPair : MlKemKeyPair} (fresh : Fresh L r frame now record)
      (accepts : r.machine.AcceptsAdvance L record advance offer keyPair ss) :
      Accepted L r frame coins nonce now ⟨some (r.ackFrame L advance ss nonce), true⟩
        (r.advanceTaken L frame advance ss nonce now)

/-- The calls that throw. -/
inductive Refused (L : LibCrypto) (r : SparsePqHealingState) (frame coins : Bytes) (now : Nat) :
    SparsePqHealingState → Prop
  | unchanged : Refused L r frame coins now r
  | stuck {record : Bytes} {offer : DecodedOffer} {code : Int} (fresh : Fresh L r frame now record)
      (accepts : r.machine.AcceptsOffer record offer)
      (encaps : L.mlkemEncaps r.machine.suite offer.publicKey coins = .error code) :
      Refused L r frame coins now (r.offerStuck offer)

section Branches

variable {frame record coins : Bytes} {nonce : Nonce} {now : Nat}

/-- The phase says which outbox there is. -/
theorem outboxIs_of_phase (h : r.WellFormed) {kind : PqHealingOutboxKind}
    (hphase : ∀ k, PhaseOfOutbox k r.machine.phase → k = some kind) : r.outboxIs kind = true := by
  unfold SparsePqHealingState.outboxIs
  rw [hphase _ h.phase]
  exact beq_self_eq_true _

theorem outboxIs_advance (h : r.WellFormed) {offer : DecodedOffer} {advance : DecodedAdvance}
    (hphase : r.machine.phase = .outboundAdvanceAwaitingAck offer advance) :
    r.outboxIs .advance = true := by
  refine outboxIs_of_phase h ?_
  rw [hphase]
  rintro (_ | _ | _) hk
  · exact hk.elim
  · exact hk.elim
  · rfl

theorem outboxIs_offer (h : r.WellFormed) {offer : DecodedOffer} {keyPair : MlKemKeyPair}
    (hphase : r.machine.phase = .outboundOffer true offer keyPair) : r.outboxIs .offer = true := by
  refine outboxIs_of_phase h ?_
  rw [hphase]
  rintro (_ | _ | _) hk
  · exact hk.elim
  · rfl
  · exact hk.elim

theorem acceptAcknowledgement_run (h : r.WellFormed) {ack : PqHealingAdvanceAcknowledgement}
    {offer : DecodedOffer} {advance : DecodedAdvance}
    (hdec : decodePqHealingAck record r.suite r.binding = .ok ack)
    (ha : r.machine.AcceptsAck ack offer advance) :
    (acceptAcknowledgement record now).run r = .ok ⟨none, true⟩ (r.ackTaken now) := by
  have hbox : r.outboxIs .advance = true := outboxIs_advance h ha.awaiting
  unfold acceptAcknowledgement
  rw [run_get_bind, run_ensure_of hbox, run_attempt_of_ok hdec,
    run_bind_of_ok (onMachine_ok (acceptAck_run h.machine ha))]
  rfl

theorem acceptAcknowledgement_cases (record : Bytes) (now : Nat) :
    (∃ e, (acceptAcknowledgement record now).run r = .error e r) ∨
      ∃ ack offer advance, decodePqHealingAck record r.suite r.binding = .ok ack ∧
        r.machine.AcceptsAck ack offer advance := by
  unfold acceptAcknowledgement
  rw [run_get_bind, run_ensure_bind]
  split
  case isFalse => exact .inl ⟨_, rfl⟩
  cases hdec : decodePqHealingAck record r.suite r.binding with
  | error e => exact .inl ⟨e, run_attempt_of_error rfl⟩
  | ok ack =>
    rcases @acceptAck_cases r.machine ack with ⟨e, he⟩ | ⟨offer, advance, ha⟩
    · refine .inl ⟨e, ?_⟩
      rw [run_attempt_of_ok rfl, run_bind_of_error (onMachine_error he)]
    · exact .inr ⟨ack, offer, advance, rfl, ha⟩

theorem advance_sealable (h : r.WellFormed) {offer : DecodedOffer} {ct : Bytes}
    (ha : r.machine.AcceptsOffer record offer) (hct : ct.length = r.machine.suite.ciphertextBytes) :
    Sealable r.suite r.binding (r.machine.localAdvance offer ct).bytes r.machine.localCounter
      r.machine.epoch := by
  have hok := Machine.localAdvance_ok h.machine ha hct
  rw [Machine.AdvanceOk, h.suite_eq, h.binding_eq] at hok
  have hseal := sealable_advance h.binding_length hok
  have hfrom : (r.machine.localAdvance offer ct).fromEpoch = r.machine.epoch := ha.epoch
  rw [hfrom] at hseal
  exact hseal

theorem acceptOffer_run (h : r.WellFormed) {offer : DecodedOffer} {ct ss : Bytes}
    (ha : r.machine.AcceptsOffer record offer)
    (henc : L.mlkemEncaps r.machine.suite offer.publicKey coins = .ok (ct, ss)) :
    (acceptOffer L false frame record r.machine.rootKey coins nonce now).run r =
      .ok ⟨some (r.advanceFrame L offer ct nonce), true⟩
        (r.offerAnswered L frame offer ct ss nonce now) := by
  obtain ⟨hct, -⟩ := L.length_mlkemEncaps _ _ _ _ _ henc
  have hseal := @sealPqControlFrame_eq L _ _ _ _ r.outboundDirection _ _ nonce
    (advance_sealable h ha hct) h.machine.root
  unfold acceptOffer
  rw [run_bind_of_ok (onMachine_ok (acceptAuthenticatedOffer_run ha)),
    run_bind_of_ok (onMachine_ok (prepareAdvance_run h.machine ha henc)), run_get_bind]
  refine (run_attempt_of_ok ((sealOrFail_false _).trans hseal)).trans ?_
  rw [run_bind_of_ok (onMachine_ok (commitPreparedAdvance_run ha))]
  rfl

theorem acceptOffer_rejected {fails : Bool} {offer : DecodedOffer} {code : Int}
    (ha : r.machine.AcceptsOffer record offer)
    (henc : L.mlkemEncaps r.machine.suite offer.publicKey coins = .error code) :
    ∃ e, (acceptOffer L fails frame record r.machine.rootKey coins nonce now).run r =
      .error e (r.offerStuck offer) := by
  obtain ⟨e, he⟩ := prepareAdvance_error ha henc
  refine ⟨e, ?_⟩
  unfold acceptOffer
  rw [run_bind_of_ok (onMachine_ok (acceptAuthenticatedOffer_run ha)),
    run_bind_of_error (onMachine_error he)]
  rfl

theorem acceptOffer_cases (fails : Bool) (frame record coins : Bytes) (nonce : Nonce) (now : Nat) :
    (∃ e, (acceptOffer L fails frame record r.machine.rootKey coins nonce now).run r = .error e r) ∨
      ∃ offer, r.machine.AcceptsOffer record offer ∧
        ((∃ ct ss, L.mlkemEncaps r.machine.suite offer.publicKey coins = .ok (ct, ss)) ∨
          ∃ e code, L.mlkemEncaps r.machine.suite offer.publicKey coins = .error code ∧
            (acceptOffer L fails frame record r.machine.rootKey coins nonce now).run r =
              .error e (r.offerStuck offer)) := by
  rcases @acceptAuthenticatedOffer_cases r.machine record with ⟨e, he⟩ | ⟨offer, ha⟩
  · exact .inl ⟨e, run_bind_of_error (onMachine_error he)⟩
  · refine .inr ⟨offer, ha, ?_⟩
    cases henc : L.mlkemEncaps r.machine.suite offer.publicKey coins with
    | ok pair => exact .inl ⟨pair.1, pair.2, rfl⟩
    | error code =>
      obtain ⟨e, he⟩ := @acceptOffer_rejected L r frame record coins nonce now fails _ _ ha henc
      exact .inr ⟨e, code, rfl, he⟩

theorem ackOf_epoch {advance : DecodedAdvance} {offer : DecodedOffer} {keyPair : MlKemKeyPair} {ss : Bytes}
    (ha : r.machine.AcceptsAdvance L record advance offer keyPair ss) :
    (ackOf advance).epoch = r.machine.epoch + 1 := by
  show advance.toEpoch = _
  rw [(decodeAdvance_spec ha.decodes).to_eq, ha.epoch]

theorem ack_sealable (h : r.WellFormed) {advance : DecodedAdvance} {offer : DecodedOffer}
    {keyPair : MlKemKeyPair} {ss : Bytes}
    (ha : r.machine.AcceptsAdvance L record advance offer keyPair ss) :
    Sealable r.suite r.binding (ackRecord r.suite r.binding (ackOf advance)) advance.senderCounter
      (r.machine.epoch + 1) := by
  have hfits := ackOf_fits h.machine ha
  rw [h.binding_eq] at hfits
  have hseal := @sealable_ack r.suite r.binding _ hfits
  rw [ackOf_epoch ha] at hseal
  exact hseal

/-- The acknowledgement of an accepted answer is encoded, and sealed for the next epoch. -/
theorem ack_sealed (h : r.WellFormed) {advance : DecodedAdvance} {offer : DecodedOffer}
    {keyPair : MlKemKeyPair} {ss : Bytes}
    (ha : r.machine.AcceptsAdvance L record advance offer keyPair ss) :
    encodePqHealingAck (ackOf advance) r.suite r.binding =
      .ok (ackRecord r.suite r.binding (ackOf advance)) ∧
    sealPqControlFrame L r.suite (r.machine.committed L advance ss).rootKey r.binding
      r.outboundDirection (ackOf advance).epoch (ackRecord r.suite r.binding (ackOf advance)) nonce =
      .ok (r.ackFrame L advance ss nonce) := by
  have hfits := ackOf_fits h.machine ha
  rw [h.binding_eq] at hfits
  rw [ackOf_epoch ha]
  exact ⟨encodePqHealingAck_eq hfits, sealPqControlFrame_eq (ack_sealable h ha) (length_nextRootOf _ _ _)⟩

theorem acceptAdvance_run (h : r.WellFormed) {advance : DecodedAdvance} {offer : DecodedOffer}
    {keyPair : MlKemKeyPair} {ss : Bytes}
    (ha : r.machine.AcceptsAdvance L record advance offer keyPair ss) :
    (acceptAdvance L false frame record nonce now).run r =
      .ok ⟨some (r.ackFrame L advance ss nonce), true⟩
        (r.advanceTaken L frame advance ss nonce now) := by
  have hbox : r.outboxIs .offer = true := outboxIs_offer h ha.offered
  obtain ⟨henc, hseal⟩ := @ack_sealed L r record nonce h _ _ _ _ ha
  unfold acceptAdvance
  rw [run_get_bind, run_ensure_of hbox,
    run_bind_of_ok (onMachine_ok (acceptAuthenticatedAdvance_run h.machine ha)),
    run_bind_of_ok (onMachine_ok (commitAcceptedAdvance_run ha)), run_get_bind]
  refine (run_attempt_of_ok henc).trans
    ((run_attempt_of_ok ((sealOrFail_false _).trans hseal)).trans ?_)
  rw [run_bind_of_ok (onMachine_ok (markAdvanceAcknowledgementDispatched_run h.machine ha))]
  rfl

theorem acceptAdvance_cases (h : r.WellFormed) (fails : Bool) (frame record : Bytes) (nonce : Nonce)
    (now : Nat) :
    (∃ e, (acceptAdvance L fails frame record nonce now).run r = .error e r) ∨
      ∃ advance offer keyPair ss, r.machine.AcceptsAdvance L record advance offer keyPair ss := by
  unfold acceptAdvance
  rw [run_get_bind, run_ensure_bind]
  split
  case isFalse => exact .inl ⟨_, rfl⟩
  rcases @acceptAuthenticatedAdvance_cases L r.machine h.machine record with ⟨e, he⟩ | ha
  · exact .inl ⟨e, run_bind_of_error (onMachine_error he)⟩
  · exact .inr ha

end Branches

section Accept

variable {frame coins : Bytes} {nonce : Nonce} {now : Nat} {fails : Bool}

theorem decodePqHealingAck_length {record binding : Bytes} {suite : MlKemParameterSet}
    {ack : PqHealingAdvanceAcknowledgement} (h : decodePqHealingAck record suite binding = .ok ack) :
    record.length = PQ_HEALING_ACK_BYTES := by
  unfold decodePqHealingAck at h
  obtain ⟨_, _, h⟩ := except_bind_eq_ok.mp h
  obtain ⟨_, hlen, _⟩ := except_bind_eq_ok.mp h
  exact demand_eq_ok.mp hlen

/-- The method up to the point where the record of a fresh frame is looked at. -/
theorem acceptControlFrameWith_fresh {record : Bytes} (hf : Fresh L r frame now record) :
    (acceptControlFrameWith L fails frame coins nonce now).run r =
      if record.length = PQ_HEALING_ACK_BYTES then (acceptAcknowledgement record now).run r
      else
        match inspectPqHealingRecord record r.suite with
        | .ok (.offer _ _) =>
          (acceptOffer L fails frame record r.machine.rootKey coins nonce now).run r
        | .ok (.advance _ _) => (acceptAdvance L fails frame record nonce now).run r
        | .error e => .error e r := by
  have hlen : requireBytes frame "PQ control frame" WIRE_CHUNK_FRAME_LEN = .ok () :=
    demand_of hf.length
  have hclock : requireSafeUint now "control clock" = .ok () := demand_of hf.clock
  unfold acceptControlFrameWith
  rw [run_get_bind, run_attempt_of_ok hlen, run_attempt_of_ok hclock, run_ite, run_ite]
  rw [if_neg (show ¬ (_ ∧ _) from hf.notOffer), if_neg (show ¬ (_ ∧ _) from hf.notAdvance)]
  refine (run_attempt_of_ok hf.opens).trans ?_
  rw [run_ite]
  split
  · rfl
  · rw [run_attempt_bind]
    cases inspectPqHealingRecord record r.suite with
    | ok inspected => cases inspected <;> rfl
    | error e => rfl

theorem inspect_offer (h : r.WellFormed) {record : Bytes} {offer : DecodedOffer}
    (ha : r.machine.AcceptsOffer record offer) :
    record.length ≠ PQ_HEALING_ACK_BYTES ∧
      inspectPqHealingRecord record r.suite = .ok (.offer r.binding offer) := by
  have hdec := ha.decodes
  rw [h.suite_eq, h.binding_eq] at hdec
  refine ⟨?_, inspectPqHealingRecord_offer hdec⟩
  rw [(decodeOffer_spec hdec).length_eq]
  exact Nat.ne_of_gt (offerLength_bounds r.suite).1

theorem inspect_advance (h : r.WellFormed) {record ss : Bytes} {advance : DecodedAdvance}
    {offer : DecodedOffer} {keyPair : MlKemKeyPair}
    (ha : r.machine.AcceptsAdvance L record advance offer keyPair ss) :
    record.length ≠ PQ_HEALING_ACK_BYTES ∧
      inspectPqHealingRecord record r.suite = .ok (.advance r.binding advance) := by
  have hdec := ha.decodes
  rw [h.suite_eq, h.binding_eq] at hdec
  refine ⟨?_, inspectPqHealingRecord_advance hdec⟩
  rw [(decodeAdvance_spec hdec).length_eq]
  exact Nat.ne_of_gt (advanceLength_bounds r.suite).1

/-- Every listed call happens. -/
theorem acceptControlFrame_run (h : r.WellFormed) {result : PqHealingControlResult}
    {r' : SparsePqHealingState} (ha : Accepted L r frame coins nonce now result r') :
    (acceptControlFrame L frame coins nonce now).run r = .ok result r' := by
  have hlen : frame.length = WIRE_CHUNK_FRAME_LEN →
      requireBytes frame "PQ control frame" WIRE_CHUNK_FRAME_LEN = .ok () := demand_of
  have hclock : now ≤ MAX_SAFE_INTEGER → requireSafeUint now "control clock" = .ok () := demand_of
  cases ha with
  | repeatedOffer length clock repeats pending =>
    unfold acceptControlFrame acceptControlFrameWith
    rw [run_get_bind, run_attempt_of_ok (hlen length), run_attempt_of_ok (hclock clock), run_ite,
      if_pos (show _ ∧ _ from repeats), SparsePqHealingState.copyPendingFrame, pending]
    rfl
  | repeatedAdvance length clock notOffer repeats cached =>
    unfold acceptControlFrame acceptControlFrameWith
    rw [run_get_bind, run_attempt_of_ok (hlen length), run_attempt_of_ok (hclock clock), run_ite,
      run_ite, if_neg (show ¬ (_ ∧ _) from notOffer), if_pos (show _ ∧ _ from repeats), cached]
    rfl
  | acknowledgement fresh decodes accepts =>
    rw [acceptControlFrame, acceptControlFrameWith_fresh fresh,
      if_pos (decodePqHealingAck_length decodes)]
    exact acceptAcknowledgement_run h decodes accepts
  | offer fresh accepts encaps =>
    obtain ⟨hne, hins⟩ := inspect_offer h accepts
    rw [acceptControlFrame, acceptControlFrameWith_fresh fresh, if_neg hne, hins]
    exact acceptOffer_run h accepts encaps
  | advance fresh accepts =>
    obtain ⟨hne, hins⟩ := inspect_advance h accepts
    rw [acceptControlFrame, acceptControlFrameWith_fresh fresh, if_neg hne, hins]
    exact acceptAdvance_run h accepts

/-- A frame that is not fresh is refused or answered from a cache, before anything is
sealed; the runtime stays as it was. -/
theorem acceptControlFrameWith_stale (hf : ∀ record, ¬ Fresh L r frame now record) :
    (∃ e, (acceptControlFrameWith L fails frame coins nonce now).run r = .error e r) ∨
      ∃ result, Accepted L r frame coins nonce now result r ∧ result.changed = false ∧
        (acceptControlFrameWith L fails frame coins nonce now).run r = .ok result r := by
  unfold acceptControlFrameWith
  rw [run_get_bind, run_attempt_bind]
  rcases check_cases (requireBytes frame "PQ control frame" WIRE_CHUNK_FRAME_LEN) with
    hlen | ⟨e, hlen⟩
  case inr => exact .inl ⟨e, by simp only [hlen]⟩
  rcases check_cases (requireSafeUint now "control clock") with hclock | ⟨e, hclock⟩
  case inr => exact .inl ⟨e, by simp only [hlen, hclock, run_attempt_bind]⟩
  have hlen' : frame.length = WIRE_CHUNK_FRAME_LEN := demand_eq_ok.mp hlen
  have hclock' : now ≤ MAX_SAFE_INTEGER := demand_eq_ok.mp hclock
  simp only [hlen, hclock, run_attempt_bind, run_ite]
  by_cases hoffer : r.RepeatsOffer frame
  · rw [if_pos (show _ ∧ _ from hoffer)]
    obtain ⟨outbox, hob⟩ : ∃ outbox, r.outbox = some outbox := by
      have hkind := hoffer.2
      unfold SparsePqHealingState.outboxIs at hkind
      cases hob : r.outbox with
      | none => simp [hob] at hkind
      | some outbox => exact ⟨outbox, rfl⟩
    refine .inr ⟨_, .repeatedOffer hlen' hclock' hoffer hob, rfl, ?_⟩
    rw [SparsePqHealingState.copyPendingFrame, hob]
    rfl
  rw [if_neg (show ¬ (_ ∧ _) from hoffer)]
  by_cases hadvance : r.RepeatsAdvance frame
  · rw [if_pos (show _ ∧ _ from hadvance)]
    obtain ⟨ack, hack⟩ := Option.isSome_iff_exists.mp hadvance.2
    refine .inr ⟨_, .repeatedAdvance hlen' hclock' hoffer hadvance hack, rfl, ?_⟩
    rw [hack]
    rfl
  rw [if_neg (show ¬ (_ ∧ _) from hadvance)]
  cases hopen : openPqControlFrame L r.suite r.machine.rootKey r.binding r.inboundDirection
    r.machine.epoch frame with
  | error e => exact .inl ⟨e, rfl⟩
  | ok record => exact absurd ⟨hlen', hclock', hoffer, hadvance, hopen⟩ (hf record)

/-- The lists are complete: a call throws as listed or returns as listed. -/
theorem acceptControlFrame_cases (h : r.WellFormed) (frame coins : Bytes) (nonce : Nonce)
    (now : Nat) :
    (∃ e r', Refused L r frame coins now r' ∧
        (acceptControlFrame L frame coins nonce now).run r = .error e r') ∨
      ∃ result r', Accepted L r frame coins nonce now result r' := by
  unfold acceptControlFrame
  by_cases hf : ∃ record, Fresh L r frame now record
  case neg =>
    rcases @acceptControlFrameWith_stale L r frame coins nonce now false (not_exists.mp hf) with
      ⟨e, he⟩ | ⟨result, haccepted, -⟩
    · exact .inl ⟨e, r, .unchanged, he⟩
    · exact .inr ⟨result, r, haccepted⟩
  obtain ⟨record, hfresh⟩ := hf
  rw [acceptControlFrameWith_fresh hfresh]
  split
  · rcases @acceptAcknowledgement_cases r record now with ⟨e, he⟩ | ⟨ack, offer, advance, hd, ha⟩
    · exact .inl ⟨e, r, .unchanged, he⟩
    · exact .inr ⟨_, _, .acknowledgement hfresh hd ha⟩
  · split
    · rcases @acceptOffer_cases L r false frame record coins nonce now with
        ⟨e, he⟩ | ⟨offer, ha, henc⟩
      · exact .inl ⟨e, r, .unchanged, he⟩
      · rcases henc with ⟨ct, ss, henc⟩ | ⟨e, code, henc, he⟩
        · exact .inr ⟨_, _, .offer hfresh ha henc⟩
        · exact .inl ⟨e, _, .stuck hfresh ha henc, he⟩
    · rcases @acceptAdvance_cases L r h false frame record nonce now with
        ⟨e, he⟩ | ⟨advance, offer, keyPair, ss, ha⟩
      · exact .inl ⟨e, r, .unchanged, he⟩
      · exact .inr ⟨_, _, .advance hfresh ha⟩
    · exact .inl ⟨_, r, .unchanged, rfl⟩

/-! ## Well-formedness -/

theorem SparsePqHealingState.WellFormed.ackTaken (h : r.WellFormed)
    (hnow : now ≤ MAX_SAFE_INTEGER) : (r.ackTaken now).WellFormed := by
  refine ⟨h.machine.acked, h.binding_eq, h.suite_eq, h.rootSuite_eq, rfl, hnow, Nat.zero_le _,
    trivial, ?_, ?_, ?_, ?_, rfl⟩ <;> rintro _ ⟨⟩

theorem SparsePqHealingState.WellFormed.offerStuck (h : r.WellFormed) {record : Bytes}
    {offer : DecodedOffer} (ha : r.machine.AcceptsOffer record offer) :
    (r.offerStuck offer).WellFormed := by
  have hnone : r.outbox = none := by
    have hphase := h.phase
    rw [ha.idle] at hphase
    cases hob : r.outbox with
    | none => rfl
    | some outbox =>
      rw [hob] at hphase
      cases hkind : outbox.kind <;> simp [hkind, PhaseOfOutbox] at hphase
  refine ⟨h.machine.received ha, h.binding_eq, h.suite_eq, h.rootSuite_eq, h.messageRoot_eq,
    h.lastHealedAt, h.messages, ?_, h.outbox, h.offerFrame, h.advanceFrame, h.ackFrame, h.paired⟩
  show PhaseOfOutbox (r.outbox.map (·.kind)) (.inboundOffer offer)
  rw [hnone]
  trivial

/-- A frame the runtime accepted leaves a well-formed runtime. -/
theorem Accepted.wellFormed (h : r.WellFormed) {result : PqHealingControlResult}
    {r' : SparsePqHealingState} (ha : Accepted L r frame coins nonce now result r') :
    r'.WellFormed := by
  cases ha with
  | repeatedOffer => exact h
  | repeatedAdvance => exact h
  | acknowledgement fresh => exact h.ackTaken fresh.clock
  | offer fresh accepts encaps =>
    obtain ⟨hct, -⟩ := L.length_mlkemEncaps _ _ _ _ _ encaps
    refine ⟨h.machine.answered accepts hct _, h.binding_eq, h.suite_eq, h.rootSuite_eq, rfl,
      h.lastHealedAt, h.messages, trivial, ?_, ?_, ?_, ?_, rfl⟩
    · rintro _ ⟨⟩
      exact ⟨length_sealedFrame (advance_sealable h accepts hct), Nat.zero_le _, fresh.clock⟩
    · rintro _ ⟨⟩
      exact ⟨fresh.length, rfl⟩
    · rintro _ ⟨⟩
    · rintro _ ⟨⟩
  | advance fresh accepts =>
    refine ⟨h.machine.finished accepts, h.binding_eq, h.suite_eq, h.rootSuite_eq, rfl,
      fresh.clock, Nat.zero_le _, trivial, ?_, ?_, ?_, ?_, rfl⟩
    · rintro _ ⟨⟩
    · rintro _ ⟨⟩
    · rintro _ ⟨⟩
      exact ⟨fresh.length, rfl⟩
    · rintro _ ⟨⟩
      exact length_sealedFrame (ack_sealable h accepts)

/-- So does a frame it refused. -/
theorem Refused.wellFormed (h : r.WellFormed) {r' : SparsePqHealingState}
    (hr : Refused L r frame coins now r') : r'.WellFormed := by
  cases hr with
  | unchanged => exact h
  | stuck _ accepts => exact h.offerStuck accepts

/-- No control frame touches the active receive keys. -/
theorem acceptControlFrame_keys (h : r.WellFormed) {result : PqHealingControlResult}
    {r' : SparsePqHealingState}
    (hrun : (acceptControlFrame L frame coins nonce now).run r = .ok result r') :
    r'.activeReceiveKeys = r.activeReceiveKeys := by
  rcases @acceptControlFrame_cases L r h frame coins nonce now with
    ⟨e, r'', -, herr⟩ | ⟨result', r'', haccepted⟩
  · rw [herr] at hrun
    cases hrun
  · rw [acceptControlFrame_run h haccepted] at hrun
    cases hrun
    cases haccepted <;> rfl

end Accept

/-! ## Dispatching and counting -/

/-- The runtime after one more dispatch of its outbox. -/
def SparsePqHealingState.dispatched (r : SparsePqHealingState) (now : Nat) : SparsePqHealingState :=
  { r with
    outbox := r.outbox.map fun outbox =>
      { outbox with attempts := outbox.attempts + 1, nextRetryAt := now + PQ_HEAL_RETRY_MS } }

theorem markPendingDispatched_run {outbox : PqHealingOutbox} {now : Nat}
    (hob : r.outbox = some outbox) (hnow : now ≤ MAX_SAFE_INTEGER)
    (hattempts : outbox.attempts < PQ_HEAL_MAX_RETRIES) :
    (markPendingDispatched now).run r = .ok () (r.dispatched now) := by
  have hclock : requireSafeUint now "dispatch clock" = .ok () := demand_of hnow
  unfold markPendingDispatched
  rw [run_get_bind]
  simp only [hob]
  rw [run_attempt_of_ok hclock, run_ensure_of (Nat.not_le.mpr hattempts)]
  show EStateM.Result.ok () _ = _
  simp [SparsePqHealingState.dispatched, hob]

theorem markPendingDispatched_cases (now : Nat) :
    (∃ e, (markPendingDispatched now).run r = .error e r) ∨
      ∃ outbox, r.outbox = some outbox ∧ now ≤ MAX_SAFE_INTEGER ∧
        outbox.attempts < PQ_HEAL_MAX_RETRIES := by
  unfold markPendingDispatched
  rw [run_get_bind]
  cases hob : r.outbox with
  | none => exact .inl ⟨_, rfl⟩
  | some outbox =>
    rcases check_cases (requireSafeUint now "dispatch clock") with hclock | ⟨e, hclock⟩
    case inr => exact .inl ⟨e, run_attempt_of_error hclock⟩
    by_cases hattempts : PQ_HEAL_MAX_RETRIES ≤ outbox.attempts
    · refine .inl ⟨failure "PQ control retry budget is exhausted",
        (run_attempt_of_ok hclock).trans ?_⟩
      rw [run_ensure_bind, if_neg (not_not_intro hattempts)]
    · exact .inr ⟨outbox, rfl, demand_eq_ok.mp hclock, Nat.not_le.mp hattempts⟩

theorem SparsePqHealingState.WellFormed.withKeys (h : r.WellFormed) (keys : OrdMap String Bytes) :
    ({ r with activeReceiveKeys := keys } : SparsePqHealingState).WellFormed :=
  ⟨h.machine, h.binding_eq, h.suite_eq, h.rootSuite_eq, h.messageRoot_eq, h.lastHealedAt,
    h.messages, h.phase, h.outbox, h.offerFrame, h.advanceFrame, h.ackFrame, h.paired⟩

/-- The largest time value of a `Date`, and so of `Date.now()`. -/
abbrev MAX_TIME_VALUE : Nat := 8640000000000000

theorem SparsePqHealingState.WellFormed.dispatched (h : r.WellFormed) {outbox : PqHealingOutbox}
    {now : Nat} (hob : r.outbox = some outbox) (hattempts : outbox.attempts < PQ_HEAL_MAX_RETRIES)
    (hnow : now ≤ MAX_TIME_VALUE) : (r.dispatched now).WellFormed := by
  have hkind : (r.dispatched now).outbox.map (·.kind) = r.outbox.map (·.kind) := by
    simp [SparsePqHealingState.dispatched, hob]
  have his : ∀ kind, (r.dispatched now).outboxIs kind = r.outboxIs kind := fun kind => by
    rw [SparsePqHealingState.outboxIs, SparsePqHealingState.outboxIs, hkind]
  have hnone : r.outbox ≠ none := by simp [hob]
  refine ⟨h.machine, h.binding_eq, h.suite_eq, h.rootSuite_eq, h.messageRoot_eq, h.lastHealedAt,
    h.messages, hkind ▸ h.phase, ?_, ?_, ?_, h.ackFrame, h.paired⟩
  · intro outbox' hob'
    simp only [SparsePqHealingState.dispatched, hob, Option.map_some, Option.mem_def,
      Option.some.injEq] at hob'
    subst hob'
    obtain ⟨hlen, -, -⟩ := h.outbox outbox hob
    refine ⟨hlen, hattempts, ?_⟩
    show now + PQ_HEAL_RETRY_MS ≤ MAX_SAFE_INTEGER
    simp only [MAX_TIME_VALUE, PQ_HEAL_RETRY_MS, MAX_SAFE_INTEGER] at *
    omega
  · intro frame hframe
    exact ⟨(h.offerFrame frame hframe).1, (his .advance).trans (h.offerFrame frame hframe).2⟩
  · intro frame hframe
    exact absurd (h.advanceFrame frame hframe).2 hnone

/-- The runtime after one more application message. -/
def SparsePqHealingState.counted (r : SparsePqHealingState) : SparsePqHealingState :=
  { r with messagesSinceHealing := r.messagesSinceHealing + 1 }

theorem noteApplicationMessage_run :
    noteApplicationMessage.run r =
      if r.messagesSinceHealing < MAX_SAFE_INTEGER then .ok () r.counted
      else .error (failure "application-message counter overflow") r := by
  unfold noteApplicationMessage
  rw [run_get_bind, run_ensure_bind]
  by_cases h : MAX_SAFE_INTEGER ≤ r.messagesSinceHealing
  · rw [if_neg (not_not_intro h), if_neg (Nat.not_lt.mpr h)]
  · rw [if_pos h, if_pos (Nat.not_le.mp h)]
    rfl

theorem SparsePqHealingState.WellFormed.counted (h : r.WellFormed)
    (hlt : r.messagesSinceHealing < MAX_SAFE_INTEGER) : r.counted.WellFormed :=
  ⟨h.machine, h.binding_eq, h.suite_eq, h.rootSuite_eq, h.messageRoot_eq, h.lastHealedAt, hlt,
    h.phase, h.outbox, h.offerFrame, h.advanceFrame, h.ackFrame, h.paired⟩

end PqHealingRuntime

end P2Party
