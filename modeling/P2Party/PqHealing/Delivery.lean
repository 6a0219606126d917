import P2Party.PqHealing.Orchestrator
import P2Party.PqHealing.Refinement

/-!
# Frames that arrive when they are expected

The other direction of the refinement: a frame of the peer that the protocol
expects now is accepted. An OFFER of the peer's turn reaches an idle runtime, an
ADVANCE reaches the runtime that made its OFFER, an ACK the one that waits for it.

- `Means.opens`: a frame of the peer under the current root and epoch opens;
- `Means.epoch_unique`: a frame is sealed for one epoch;
- `Abs.expects_offer`, `Abs.expects_advance`, `Abs.expects_ack`: the checks pass;
- `Abs.takes_offer`, `Abs.takes_advance`, `Abs.takes_ack`: what is left behind;
- `Abs.pending_offer`, `Abs.pending_advance`: what a pending frame says.
-/

namespace P2Party

open Base PqHealing PqControlFrame PqHealingRuntime PqHealingOrchestrator Healing

namespace HealingRefinement

variable {L : LibCrypto} {E : Edge} {r : Role} {R : SparsePqHealingState} {x : EdgeParty}
  {frame : Bytes} {m : EdgeMsg}

theorem Means.length {q : Role} (hm : Means L E q frame m) :
    frame.length = WIRE_CHUNK_FRAME_LEN := by
  obtain ⟨record, counter, nonce, -, -, hseal, rfl⟩ := hm
  exact length_sealedFrame hseal

/-- The epoch a frame is sealed for stands in its header. -/
theorem Means.epoch_unique {q q' : Role} {m' : EdgeMsg} (hm : Means L E q frame m)
    (hm' : Means L E q' frame m') : m.epoch = m'.epoch := by
  obtain ⟨record, counter, nonce, -, -, hseal, rfl⟩ := hm
  obtain ⟨record', counter', nonce', -, -, hseal', heq⟩ := hm'
  have hslice := congrArg (slice · 49 8) heq
  simp only [sealedFrame, slice_controlHeader_epoch hseal.binding] at hslice
  have hnat := congrArg beNat hslice
  rw [beNat_beBytes (lt_256_pow_8 hseal.keyEpoch), beNat_beBytes (lt_256_pow_8 hseal'.keyEpoch)]
    at hnat
  exact hnat

theorem Means.ne {q q' : Role} {frame' : Bytes} {m' : EdgeMsg} (hm : Means L E q frame m)
    (hm' : Means L E q' frame' m') (hepoch : m.epoch ≠ m'.epoch) : frame ≠ frame' := by
  rintro rfl
  exact hepoch (hm.epoch_unique hm')

/-- A frame of the peer under the current root and epoch opens to its record. -/
theorem Means.opens (hA : L.AeadLaws) (h : Abs L E r R x) (hm : Means L E r.peer frame m)
    (hepoch : m.epoch = x.epoch) (hroot : m.root = x.root) :
    ∃ record, R.Opens L frame record ∧ Carries L E x.root x.epoch m.body record := by
  obtain ⟨record, counter, nonce, hcarries, -, hseal, rfl⟩ := hm
  rw [hepoch] at hseal
  rw [hroot, hepoch] at hcarries
  refine ⟨record, ?_, hcarries⟩
  unfold SparsePqHealingState.Opens
  rw [h.suite, h.binding, h.inbound, h.epoch, h.root, hepoch, hroot]
  exact openPqControlFrame_sealedFrame hA hseal h.root_length

/-- The same with the checks that come before. -/
theorem Means.fresh (hA : L.AeadLaws) (h : Abs L E r R x) (hm : Means L E r.peer frame m)
    (hepoch : m.epoch = x.epoch) (hroot : m.root = x.root) (hoffer : ¬ R.RepeatsOffer frame)
    (hadvance : ¬ R.RepeatsAdvance frame) {now : Nat} (clock : now ≤ MAX_SAFE_INTEGER) :
    ∃ record, Fresh L R frame now record ∧ Carries L E x.root x.epoch m.body record := by
  obtain ⟨record, hopens, hcarries⟩ := hm.opens hA h hepoch hroot
  exact ⟨record, ⟨hm.length, clock, hoffer, hadvance, hopens⟩, hcarries⟩

theorem Abs.machine_idle (h : Abs L E r R x) (hx : x.phase = .idle) : R.machine.phase = .idle := by
  have hphase := h.phase
  unfold PhaseAbs at hphase
  rw [hx] at hphase
  exact hphase

section Expected

variable {now : Nat}

/-- An idle runtime accepts an OFFER of its peer's turn. -/
theorem Abs.expects_offer (hA : L.AeadLaws) (hK : L.KemLaws) (h : Abs L E r R x) {o : Bytes}
    (hm : Means L E r.peer frame ⟨x.epoch, x.root, .offer o⟩) (idle : x.phase = .idle)
    (turn : owner E.first x.epoch = r.peer) (hoffer : ¬ R.RepeatsOffer frame)
    (hadvance : ¬ R.RepeatsAdvance frame) (clock : now ≤ MAX_SAFE_INTEGER) (coins : Bytes) :
    ∃ record offer ct ss, Fresh L R frame now record ∧ R.machine.AcceptsOffer record offer ∧
      L.mlkemEncaps R.machine.suite offer.publicKey coins = .ok (ct, ss) ∧ offer.bytes = o := by
  obtain ⟨record, hfresh, hcarries⟩ := hm.fresh hA h rfl rfl hoffer hadvance clock
  have hidle := h.machine_idle idle
  cases hcarries with
  | @offer offer coins' sk decodes counter epoch_eq honest =>
    have hspec := decodeOffer_spec decodes
    have hlt : x.epoch < MAX_U64 := epoch_eq ▸ hspec.from_lt
    obtain ⟨ct, ss, hencaps, -⟩ := hK.correct _ _ _ _ coins honest
    -- an OFFER taken before has an older counter
    have hknown : R.machine.rejectKnownOfferReplayOrFork offer = .ok () := by
      unfold Machine.rejectKnownOfferReplayOrFork Machine.knownOffer
      rw [hidle]
      cases hlast : R.machine.lastInboundOffer with
      | none => rfl
      | some known =>
        have hne : offer.senderCounter ≠ known.senderCounter := by
          have := (h.wf.machine.lastOffer known hlast).2.2
          rw [h.remoteCounter] at this
          omega
        have hslot : sameOfferSlot offer known = false := by
          simp [sameOfferSlot, hne]
        simp [hslot]
    refine ⟨_, offer, ct, ss, hfresh, ⟨?_, hknown, hidle, ?_, ?_, ?_, ⟨?_, ?_, ?_⟩⟩, ?_, rfl⟩
    · rw [h.machine_suite, h.machine_binding]
      exact decodes
    · rw [h.turn, turn, if_neg (Role.peer_ne r)]
    · rw [counter, h.remoteCounter]
    · rw [epoch_eq, h.epoch]
    · exact h.epoch ▸ hlt
    · exact h.localCounter ▸ hlt
    · exact h.remoteCounter ▸ hlt
    · rw [h.machine_suite]
      exact hencaps

/-- The runtime that made an OFFER accepts the ADVANCE that answers it. -/
theorem Abs.expects_advance (hA : L.AeadLaws) (hK : L.KemLaws) (h : Abs L E r R x)
    {o next : Bytes} (hm : Means L E r.peer frame ⟨x.epoch, x.root, .advance o next⟩)
    (offering : x.phase = .offering o) (hoffer : ¬ R.RepeatsOffer frame)
    (hadvance : ¬ R.RepeatsAdvance frame) (clock : now ≤ MAX_SAFE_INTEGER) :
    ∃ record advance offer keyPair ss, Fresh L R frame now record ∧
      R.machine.AcceptsAdvance L record advance offer keyPair ss := by
  obtain ⟨record, hfresh, hcarries⟩ := hm.fresh hA h rfl rfl hoffer hadvance clock
  have hphase := h.phase
  unfold PhaseAbs at hphase
  rw [offering] at hphase
  obtain ⟨offer, keyPair, coins, outbox, hp, ho, hkp, -⟩ := hphase
  have hown : R.machine.OfferOk offer := by
    have hok := h.wf.machine.phase
    rw [hp] at hok
    exact hok.1
  rw [Machine.OfferOk, h.machine_suite, h.machine_binding] at hown
  generalize hbody : (Body.advance o next : Body Bytes Bytes) = body at hcarries
  cases hcarries with
  | offer => cases hbody
  | ack => cases hbody
  | @advance advance coins' ss decodes counter epoch_eq encaps =>
    have hanswers : advance.offer.bytes = o := by
      injection hbody with hleft
      exact hleft.symm
    have hoffer' : advance.offer = offer := by
      have hembedded := (decodeAdvance_spec decodes).offer_decodes
      rw [hanswers, ← ho] at hembedded
      exact Except.ok.inj (hembedded.symm.trans hown)
    obtain ⟨ct, ss', hencaps, hdecaps⟩ := hK.correct _ _ _ _ coins' hkp
    rw [hoffer'] at encaps
    cases encaps.symm.trans hencaps
    have hknown : R.machine.rejectKnownAdvanceReplayOrFork advance = .ok () := by
      unfold Machine.rejectKnownAdvanceReplayOrFork Machine.knownAdvance
      rw [hp]
      cases hlast : R.machine.lastInboundAdvance with
      | none => rfl
      | some known =>
        have hne : advance.senderCounter ≠ known.senderCounter := by
          have := (h.wf.machine.lastAdvance known hlast).2.2
          rw [h.remoteCounter] at this
          omega
        have hslot : sameAdvanceSlot advance known = false := by
          simp [sameAdvanceSlot, hne]
        simp [hslot]
    refine ⟨_, advance, offer, keyPair, ss, hfresh, ?_, hknown, hp, ?_, ?_, hanswers.trans ho.symm, ?_⟩
    · rw [h.machine_suite, h.machine_binding]
      exact decodes
    · rw [counter, h.remoteCounter]
    · rw [epoch_eq, h.epoch]
    · rw [h.machine_suite]
      exact hdecaps

/-- The runtime that waits accepts the acknowledgement of its ADVANCE. -/
theorem Abs.expects_ack (hA : L.AeadLaws) (h : Abs L E r R x) {o : Bytes}
    (hm : Means L E r.peer frame ⟨x.epoch, x.root, .ack⟩) (awaiting : x.phase = .awaiting o)
    (hoffer : ¬ R.RepeatsOffer frame) (hadvance : ¬ R.RepeatsAdvance frame)
    (clock : now ≤ MAX_SAFE_INTEGER) :
    ∃ record ack offer advance, Fresh L R frame now record ∧
      decodePqHealingAck record R.suite R.binding = .ok ack ∧
      R.machine.AcceptsAck ack offer advance := by
  obtain ⟨record, hfresh, hcarries⟩ := hm.fresh hA h rfl rfl hoffer hadvance clock
  have hphase := h.phase
  unfold PhaseAbs at hphase
  rw [awaiting] at hphase
  obtain ⟨offer, advance, outbox, k, hp, -, -, -, -⟩ := hphase
  have hok := h.wf.machine.phase
  rw [hp] at hok
  obtain ⟨-, -, -, -, hcounter, -, -⟩ := hok
  rw [h.localCounter] at hcounter
  have hmax : x.epoch ≤ MAX_U64 := h.epoch ▸ h.wf.machine.epoch
  cases hcarries with
  | @ack counter pred =>
    have hfits : AckFits E.binding ⟨x.epoch, counter⟩ := by
      refine ⟨h.binding ▸ h.wf.binding_length, hmax, ?_⟩
      show counter ≤ MAX_U64
      omega
    refine ⟨_, ⟨x.epoch, counter⟩, offer, advance, hfresh, ?_, hp, h.epoch.symm, ?_⟩
    · rw [h.suite, h.binding]
      exact decodePqHealingAck_ackRecord hfits
    · show counter = advance.senderCounter
      omega

/-! ## What they lead to -/

/-- An expected OFFER is answered. -/
theorem Abs.takes_offer (hA : L.AeadLaws) (hK : L.KemLaws) (h : Abs L E r R x) {o : Bytes}
    (hm : Means L E r.peer frame ⟨x.epoch, x.root, .offer o⟩) (idle : x.phase = .idle)
    (turn : owner E.first x.epoch = r.peer) (hoffer : ¬ R.RepeatsOffer frame)
    (hadvance : ¬ R.RepeatsAdvance frame) (clock : now ≤ MAX_SAFE_INTEGER) (coins : Bytes)
    (nonce : Nonce) :
    ∃ offer ct ss next,
      Accepted L R frame coins nonce now ⟨some (R.advanceFrame L offer ct nonce), true⟩
        (R.offerAnswered L frame offer ct ss nonce now) ∧
      Abs L E r (R.offerAnswered L frame offer ct ss nonce now) (x.commit next (.awaiting o)) := by
  obtain ⟨record, offer, ct, ss, hfresh, haccepts, hencaps, -⟩ :=
    h.expects_offer hA hK hm idle turn hoffer hadvance clock coins
  have houtcome := @Abs.answered L E r R x frame coins nonce now _ hA h hm (fun _ => rfl) record ct
    ss offer hfresh haccepts hencaps
  cases houtcome with
  | received receives abs =>
    cases receives with
    | answer o next => exact ⟨offer, ct, ss, next, .offer hfresh haccepts hencaps, abs⟩

/-- An expected ADVANCE is committed and acknowledged. -/
theorem Abs.takes_advance (hA : L.AeadLaws) (hK : L.KemLaws) (h : Abs L E r R x) {o next : Bytes}
    (hm : Means L E r.peer frame ⟨x.epoch, x.root, .advance o next⟩)
    (offering : x.phase = .offering o) (hoffer : ¬ R.RepeatsOffer frame)
    (hadvance : ¬ R.RepeatsAdvance frame) (clock : now ≤ MAX_SAFE_INTEGER) (coins : Bytes)
    (nonce : Nonce) :
    ∃ advance ss,
      Accepted L R frame coins nonce now ⟨some (R.ackFrame L advance ss nonce), true⟩
        (R.advanceTaken L frame advance ss nonce now) ∧
      Abs L E r (R.advanceTaken L frame advance ss nonce now) (x.commit next .idle) := by
  obtain ⟨record, advance, offer, keyPair, ss, hfresh, haccepts⟩ :=
    h.expects_advance hA hK hm offering hoffer hadvance clock
  have houtcome := @Abs.finished L E r R x frame nonce now _ hA hK h hm (fun _ => rfl) record ss
    advance offer keyPair hfresh haccepts
  cases houtcome with
  | received receives abs =>
    cases receives with
    | finish o next => exact ⟨advance, ss, .advance hfresh haccepts, abs⟩

/-- An expected ACK ends the wait. -/
theorem Abs.takes_ack (hA : L.AeadLaws) (h : Abs L E r R x) {o : Bytes}
    (hm : Means L E r.peer frame ⟨x.epoch, x.root, .ack⟩) (awaiting : x.phase = .awaiting o)
    (hoffer : ¬ R.RepeatsOffer frame) (hadvance : ¬ R.RepeatsAdvance frame)
    (clock : now ≤ MAX_SAFE_INTEGER) (coins : Bytes) (nonce : Nonce) :
    Accepted L R frame coins nonce now ⟨none, true⟩ (R.ackTaken now) ∧
      Abs L E r (R.ackTaken now) (x.withPhase .idle) := by
  obtain ⟨record, ack, offer, advance, hfresh, hdec, haccepts⟩ :=
    h.expects_ack hA hm awaiting hoffer hadvance clock
  have houtcome := h.acked hA hm (fun _ => rfl) hfresh hdec haccepts
  cases houtcome with
  | received receives abs =>
    cases receives with
    | acked o => exact ⟨.acknowledgement hfresh hdec haccepts, abs⟩

/-- Runtimes that stand for states of one party are runtimes of one edge. -/
theorem sameEdge_of_abs {R R' : SparsePqHealingState} {x x' : EdgeParty} (h : Abs L E r R x)
    (h' : Abs L E r R' x') : SameEdge R' R where
  pqMode := h'.mode.trans h.mode.symm
  rootSuite := by rw [← h.wf.rootSuite_eq, ← h'.wf.rootSuite_eq, h.mode, h'.mode]
  amInitiator := h'.role.trans h.role.symm
  binding := h'.binding.trans h.binding.symm

/-- The frame a party that offers has pending. -/
theorem Abs.pending_offer (h : Abs L E r R x) {o : Bytes} (offering : x.phase = .offering o)
    (hf : R.copyPendingFrame = some frame) : Means L E r frame ⟨x.epoch, x.root, .offer o⟩ := by
  have hphase := h.phase
  unfold PhaseAbs at hphase
  rw [offering] at hphase
  obtain ⟨_, _, _, outbox, -, -, -, hob, hmeans⟩ := hphase
  rw [SparsePqHealingState.copyPendingFrame, hob] at hf
  cases hf
  exact hmeans

/-- The frame a party that waits has pending. -/
theorem Abs.pending_advance (h : Abs L E r R x) {o : Bytes} (awaiting : x.phase = .awaiting o)
    (hf : R.copyPendingFrame = some frame) :
    ∃ k, k + 1 = x.epoch ∧ Means L E r frame ⟨k, x.roots k, .advance o x.root⟩ := by
  have hphase := h.phase
  unfold PhaseAbs at hphase
  rw [awaiting] at hphase
  obtain ⟨_, _, outbox, k, -, -, hob, hk, hmeans⟩ := hphase
  rw [SparsePqHealingState.copyPendingFrame, hob] at hf
  cases hf
  exact ⟨k, hk, hmeans⟩

end Expected

/-! ## A sample edge -/

/-- An edge of the default room mode whose initiator owns the first turn. -/
def sampleEdge : Edge := ⟨.hybridMlkem768, List.replicate 32 7, .initiator⟩

/-- Its first root. -/
def sampleRoot : Bytes := List.replicate 32 9

/-- A nonce. -/
def sampleNonce : Nonce := ⟨List.replicate 12 0, length_zeros_twelve⟩

theorem sample_new (r : Role) :
    SparsePqHealingState.new sampleEdge.pqMode (roomPqModeToRootSuite sampleEdge.pqMode)
      sampleEdge.binding sampleRoot (if sampleEdge.first = r then .local else .remote)
      (decide (r = .initiator)) 0 = .ok (startRuntime sampleEdge sampleRoot 0 r) :=
  new_startRuntime rfl rfl (Nat.zero_le _) r

/-- The constructed ends of the sample edge stand for its first party. -/
theorem sample_abs (r : Role) :
    Abs .transparent sampleEdge r (startRuntime sampleEdge sampleRoot 0 r)
      (startParty sampleRoot) := (Abs.start (sample_new r)).1

/-- A day after the start healing is due to the one whose turn it is. -/
theorem day_due (h : R.lastHealedAt = 0)
    (hturn : (!R.machine.trafficBlocked && R.machine.nextOfferer == .local) = true) :
    R.healingDue PQ_HEAL_AFTER_MS = .ok true := by
  have hnow : requireSafeUint PQ_HEAL_AFTER_MS "healing clock" = .ok () := demand_of (by decide)
  have hday : decide (R.lastHealedAt + PQ_HEAL_AFTER_MS ≤ PQ_HEAL_AFTER_MS) = true :=
    decide_eq_true (by rw [h, Nat.zero_add])
  unfold SparsePqHealingState.healingDue
  rw [hnow, hday, Bool.or_true, hturn]
  rfl

theorem sample_due : (startRuntime sampleEdge sampleRoot 0 .initiator).healingDue PQ_HEAL_AFTER_MS =
    .ok true := day_due rfl rfl

theorem sample_offered (coins : Bytes) : ∃ pk sk,
    Offered .transparent (startRuntime sampleEdge sampleRoot 0 .initiator) coins PQ_HEAL_AFTER_MS
      pk sk :=
  ⟨_, _, sample_due, rfl, rfl, ⟨by decide, by decide, by decide⟩, rfl⟩

/-- The sample edge after some messages. -/
def sampleRuntime (keys : Role → OrdMap String Bytes) (messages : Role → Nat) (r : Role) :
    SparsePqHealingState :=
  { startRuntime sampleEdge sampleRoot 0 r with
    activeReceiveKeys := keys r
    messagesSinceHealing := messages r }

/-- A frame that the sample edge takes a day after its start. -/
structure Takes (r : Role) (R : SparsePqHealingState) (frame : Bytes) (dispatch : Option Bytes)
    (R' : SparsePqHealingState) (x : EdgeParty) : Prop where
  accepted : ∃ R₁, Accepted .transparent R frame [] sampleNonce PQ_HEAL_AFTER_MS ⟨dispatch, true⟩ R₁ ∧
    R' = SparsePqHealingState.entered R₁ ⟨dispatch, true⟩ PQ_HEAL_AFTER_MS
  length : frame.length = WIRE_CHUNK_FRAME_LEN
  abs : Abs .transparent sampleEdge r R' x
  keys : R'.activeReceiveKeys = R.activeReceiveKeys
  messages : R'.messagesSinceHealing ≤ R.messagesSinceHealing

/-- Its first exchange: after OFFER, ADVANCE and ACK both ends are idle at epoch 1. -/
theorem sample_exchange (keys : Role → OrdMap String Bytes) {messages : Role → Nat}
    (hmessages : ∀ r, messages r ≤ MAX_SAFE_INTEGER) :
    ∃ pk sk, ∃ A B A' B' : SparsePqHealingState, ∃ x y x' y' : EdgeParty, ∃ advance ack,
      Offered .transparent (sampleRuntime keys messages .initiator) [] PQ_HEAL_AFTER_MS pk sk ∧
      A = ((sampleRuntime keys messages .initiator).offerMade .transparent pk sk sampleNonce
        PQ_HEAL_AFTER_MS).dispatched PQ_HEAL_AFTER_MS ∧
      Abs .transparent sampleEdge .initiator A x ∧
      Takes .responder (sampleRuntime keys messages .responder)
        ((sampleRuntime keys messages .initiator).offerFrame .transparent pk sampleNonce) (some advance) B y ∧
      Takes .initiator A advance (some ack) A' x' ∧ Takes .responder B ack none B' y' ∧
      (x'.phase = .idle ∧ x'.epoch = 1) ∧ y'.phase = .idle ∧ y'.epoch = 1 := by
  have hAead := LibCrypto.transparent_aeadLaws
  have hKem := LibCrypto.transparent_kemLaws
  have hclock : PQ_HEAL_AFTER_MS ≤ MAX_TIME_VALUE := by decide
  have hsafe : PQ_HEAL_AFTER_MS ≤ MAX_SAFE_INTEGER := by decide
  -- the OFFER
  obtain ⟨pk, sk, ho⟩ := sample_offered []
  have ho' : Offered .transparent (sampleRuntime keys messages .initiator) [] PQ_HEAL_AFTER_MS pk sk :=
    ⟨day_due rfl rfl, ho.offers⟩
  have hA := (sample_abs .initiator).traffic (keys .initiator) (hmessages .initiator)
  have hB := (sample_abs .responder).traffic (keys .responder) (hmessages .responder)
  obtain ⟨o, -, -, habs, hf⟩ := @Abs.offer _ _ _ _ _ hA [] pk sk sampleNonce _ ho' hsafe
  have hA₁ := @Abs.dispatched _ _ _ _ _ habs _ PQ_HEAL_AFTER_MS rfl (Nat.succ_pos _) hclock
  -- the ADVANCE
  obtain ⟨offer, ct, ss, next, hacc, habs'⟩ := hB.takes_offer hAead hKem hf rfl rfl
    (by rintro ⟨⟨⟩, -⟩) (by rintro ⟨⟨⟩, -⟩) hsafe [] sampleNonce
  have hB₁ := @Abs.dispatched _ _ _ _ _ habs' _ PQ_HEAL_AFTER_MS rfl (Nat.succ_pos _) hclock
  -- the ACK
  obtain ⟨k, hk, hg⟩ := hB₁.pending_advance rfl rfl
  obtain rfl : k = 0 := Nat.succ.inj hk
  obtain ⟨advance, ss', hacc', hA₂⟩ := hA₁.takes_advance hAead hKem hg rfl (by rintro ⟨⟨⟩, -⟩)
    (by rintro ⟨⟨⟩, -⟩) hsafe [] sampleNonce
  have hack := (hA₂.cached _ rfl).2
  obtain ⟨hacc'', hB₂⟩ := hB₁.takes_ack hAead hack rfl
    (fun h => hf.ne hack Nat.zero_ne_one (Option.some.inj h.1)) (by rintro ⟨⟨⟩, -⟩) hsafe [] sampleNonce
  exact ⟨pk, sk, _, _, _, _, _, _, _, _, _, _, ho', rfl, hA₁, ⟨⟨_, hacc, rfl⟩, hf.length, hB₁, rfl, Nat.le_refl _⟩,
    ⟨⟨_, hacc', rfl⟩, hg.length, hA₂, rfl, Nat.zero_le _⟩, ⟨⟨_, hacc'', rfl⟩, hack.length, hB₂, rfl, Nat.zero_le _⟩,
    ⟨rfl, rfl⟩, rfl, rfl⟩

end HealingRefinement

end P2Party
