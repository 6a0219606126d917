import P2Party.Session.HonestTraffic

/-!
# Control operations that fail half way

`prepareHealing` and `acceptControlFrame` make several transitions in place, and the
backend can fail between them: a peer's public key may be one that encapsulation
rejects, and the AEAD may refuse to seal the answer. Here the two methods run with
such a failure as an argument, and every way they can throw is listed.

- `Control`, `Control.run`, `Control.Interrupted`: a control operation, and the inputs on
  which the backend fails after the machine has moved;
- `Control.run_cases`: what a control operation leaves;
- `control_atomic_iff`: a control operation that throws leaves the session as it was,
  unless it was interrupted.
-/

namespace P2Party

open Base PqHealing PqControlFrame PqHealingRuntime HealingRefinement

/-! ## A machine that no control frame moves -/

namespace PqHealing

/-- The machine was left between two transitions of one exchange: it holds a step that
only the method that started it would have continued. -/
def Machine.Wedged (m : Machine) : Prop :=
  match m.phase with
  | .idle | .outboundOffer true _ _ | .outboundAdvanceAwaitingAck _ _ => False
  | _ => True

variable {L : LibCrypto} {m : Machine}

theorem Machine.Wedged.not_idle (h : m.Wedged) : m.phase ≠ .idle := by
  intro hidle
  unfold Machine.Wedged at h
  rw [hidle] at h
  exact h

theorem Machine.Wedged.trafficBlocked (h : m.Wedged) : m.trafficBlocked = true := by
  unfold Machine.trafficBlocked
  rw [bne_iff_ne]
  exact h.not_idle

theorem Machine.Wedged.refusesOffer (h : m.Wedged) (record : Bytes) :
    ∃ e, (acceptAuthenticatedOffer record).run m = .error e m := by
  obtain he | ⟨offer, ha⟩ := acceptAuthenticatedOffer_cases (m := m) record
  · exact he
  · exact absurd ha.idle h.not_idle

theorem Machine.Wedged.refusesAck (h : m.Wedged) (ack : PqHealingAdvanceAcknowledgement) :
    ∃ e, (acceptAuthenticatedAdvanceAcknowledgement ack).run m = .error e m := by
  obtain he | ⟨offer, advance, ha⟩ := acceptAck_cases (m := m) ack
  · exact he
  · unfold Machine.Wedged at h
    rw [ha.awaiting] at h
    exact h.elim

theorem Machine.Wedged.refusesAdvance (h : m.Wedged) (record : Bytes) :
    ∃ e, (acceptAuthenticatedAdvance L record).run m = .error e m := by
  unfold acceptAuthenticatedAdvance
  simp only [run_get_bind, run_attempt_bind]
  cases decodeAdvance record m.suite (some m.binding) with
  | error e => exact ⟨e, rfl⟩
  | ok advance =>
    cases hknown : m.rejectKnownAdvanceReplayOrFork advance with
    | error e => exact ⟨e, by simp only [hknown]⟩
    | ok u =>
      unfold Machine.Wedged at h
      simp only [hknown]
      split
      case h_1 offer keyPair hphase =>
        rw [hphase] at h
        exact h.elim
      case h_2 => exact ⟨_, rfl⟩

end PqHealing

namespace PqHealingRuntime

variable {L : LibCrypto} {r : SparsePqHealingState} {frame coins : Bytes} {nonce : Nonce}
  {now : Nat} {fails : Bool}

/-- A wedged runtime refuses every control frame, or answers it from a cache. -/
theorem acceptControlFrameWith_wedged (h : r.machine.Wedged) :
    (∃ e, (acceptControlFrameWith L fails frame coins nonce now).run r = .error e r) ∨
      ∃ result, result.changed = false ∧
        (acceptControlFrameWith L fails frame coins nonce now).run r = .ok result r := by
  by_cases hf : ∃ record, Fresh L r frame now record
  case neg =>
    rcases @acceptControlFrameWith_stale L r frame coins nonce now fails (not_exists.mp hf) with
      he | ⟨result, -, hsame, hok⟩
    · exact .inl he
    · exact .inr ⟨result, hsame, hok⟩
  obtain ⟨record, hf⟩ := hf
  left
  rw [acceptControlFrameWith_fresh hf]
  split
  · unfold acceptAcknowledgement
    rw [run_get_bind, run_ensure_bind]
    split
    case isFalse => exact ⟨_, rfl⟩
    rw [run_attempt_bind]
    cases decodePqHealingAck record r.suite r.binding with
    | error e => exact ⟨e, rfl⟩
    | ok ack =>
      obtain ⟨e, he⟩ := h.refusesAck ack
      exact ⟨e, run_bind_of_error (onMachine_error he)⟩
  · split
    · obtain ⟨e, he⟩ := h.refusesOffer record
      refine ⟨e, ?_⟩
      unfold acceptOffer
      rw [run_bind_of_error (onMachine_error he)]
    · obtain ⟨e, he⟩ := h.refusesAdvance (L := L) record
      unfold acceptAdvance
      rw [run_get_bind, run_ensure_bind]
      split
      · exact ⟨e, run_bind_of_error (onMachine_error he)⟩
      · exact ⟨_, rfl⟩
    · exact ⟨_, rfl⟩

/-! ## Where the backend interrupts a call -/

/-- The wedged runtimes an interrupted call leaves. -/
def SparsePqHealingState.withMachine (r : SparsePqHealingState) (machine : Machine) :
    SparsePqHealingState := { r with machine }

theorem prepareHealingOfferWith_interrupted (h : r.WellFormed) {pk sk : Bytes}
    (ho : Offered L r coins now pk sk) :
    ∃ e, (prepareHealingOfferWith L true coins nonce now).run r =
      .error e (r.withMachine (r.machine.offering pk sk false)) := by
  have hseal := @sealPqControlFrame_eq L _ _ _ _ r.outboundDirection _ _ nonce
    (offer_sealable h ho.offers) h.machine.root
  unfold prepareHealingOfferWith
  rw [run_get_bind, run_attempt_of_ok ho.due, run_ensure_of rfl,
    run_bind_of_ok (onMachine_ok (prepareOffer_run h.machine ho.offers)), run_get_bind]
  refine ⟨PqControlFrame.failure .invalidFrame "control-frame AEAD encryption failed",
    run_attempt_of_error ?_⟩
  exact congrArg (sealOrFail true) hseal

theorem acceptOffer_interrupted (h : r.WellFormed) {record ct ss : Bytes}
    {offer : DecodedOffer} (ha : r.machine.AcceptsOffer record offer)
    (henc : L.mlkemEncaps r.machine.suite offer.publicKey coins = .ok (ct, ss)) :
    ∃ e, (acceptOffer L true frame record r.machine.rootKey coins nonce now).run r =
      .error e (r.withMachine (r.machine.prepared L offer ct ss)) := by
  obtain ⟨hct, -⟩ := L.length_mlkemEncaps _ _ _ _ _ henc
  have hseal := @sealPqControlFrame_eq L _ _ _ _ r.outboundDirection _ _ nonce
    (advance_sealable h ha hct) h.machine.root
  unfold acceptOffer
  rw [run_bind_of_ok (onMachine_ok (acceptAuthenticatedOffer_run ha)),
    run_bind_of_ok (onMachine_ok (prepareAdvance_run h.machine ha henc)), run_get_bind]
  refine ⟨PqControlFrame.failure .invalidFrame "control-frame AEAD encryption failed",
    run_attempt_of_error ?_⟩
  exact congrArg (sealOrFail true) hseal

theorem acceptAdvance_interrupted (h : r.WellFormed) {record ss : Bytes}
    {advance : DecodedAdvance} {offer : DecodedOffer} {keyPair : MlKemKeyPair}
    (ha : r.machine.AcceptsAdvance L record advance offer keyPair ss) :
    ∃ e, (acceptAdvance L true frame record nonce now).run r =
      .error e (r.withMachine (r.machine.committed L advance ss)) := by
  obtain ⟨henc, hseal⟩ := @ack_sealed L r record nonce h _ _ _ _ ha
  unfold acceptAdvance
  rw [run_get_bind, run_ensure_of (outboxIs_offer h ha.offered),
    run_bind_of_ok (onMachine_ok (acceptAuthenticatedAdvance_run h.machine ha)),
    run_bind_of_ok (onMachine_ok (commitAcceptedAdvance_run ha)), run_get_bind]
  refine ⟨PqControlFrame.failure .invalidFrame "control-frame AEAD encryption failed",
    (run_attempt_of_ok henc).trans (run_attempt_of_error ?_)⟩
  exact congrArg (sealOrFail true) hseal

/-- The frames on which the backend fails after the machine has moved. -/
inductive Interrupts (L : LibCrypto) (r : SparsePqHealingState) (frame coins : Bytes) (now : Nat) :
    Bool → Prop
  | keyRejected {fails : Bool} {record : Bytes} {offer : DecodedOffer} {code : Int}
      (fresh : Fresh L r frame now record) (accepts : r.machine.AcceptsOffer record offer)
      (encaps : L.mlkemEncaps r.machine.suite offer.publicKey coins = .error code) :
      Interrupts L r frame coins now fails
  | advanceUnsealed {record ct ss : Bytes} {offer : DecodedOffer}
      (fresh : Fresh L r frame now record) (accepts : r.machine.AcceptsOffer record offer)
      (encaps : L.mlkemEncaps r.machine.suite offer.publicKey coins = .ok (ct, ss)) :
      Interrupts L r frame coins now true
  | ackUnsealed {record ss : Bytes} {advance : DecodedAdvance} {offer : DecodedOffer}
      {keyPair : MlKemKeyPair} (fresh : Fresh L r frame now record)
      (accepts : r.machine.AcceptsAdvance L record advance offer keyPair ss) :
      Interrupts L r frame coins now true

theorem Interrupts.not_wedged (hi : Interrupts L r frame coins now fails) :
    ¬ r.machine.Wedged := by
  intro hw
  cases hi with
  | keyRejected fresh accepts encaps => exact hw.not_idle accepts.idle
  | advanceUnsealed fresh accepts encaps => exact hw.not_idle accepts.idle
  | ackUnsealed fresh accepts =>
    unfold Machine.Wedged at hw
    rw [accepts.offered] at hw
    exact hw

/-- An interrupted call throws and leaves a wedged machine. -/
theorem acceptControlFrameWith_interrupted (h : r.WellFormed)
    (hi : Interrupts L r frame coins now fails) :
    ∃ e m,
      (acceptControlFrameWith L fails frame coins nonce now).run r = .error e (r.withMachine m) ∧
      m.Wedged := by
  cases hi with
  | @keyRejected _ record offer code fresh accepts encaps =>
    obtain ⟨hne, hins⟩ := inspect_offer h accepts
    obtain ⟨e, he⟩ := @acceptOffer_rejected L r frame record coins nonce now fails _ _ accepts encaps
    refine ⟨e, r.machine.received offer, ?_, trivial⟩
    rw [acceptControlFrameWith_fresh fresh, if_neg hne, hins]
    exact he
  | @advanceUnsealed record ct ss offer fresh accepts encaps =>
    obtain ⟨e, he⟩ := @acceptOffer_interrupted L r frame coins nonce now h _ _ _ _ accepts encaps
    obtain ⟨hne, hins⟩ := inspect_offer h accepts
    refine ⟨e, r.machine.prepared L offer ct ss, ?_, trivial⟩
    rw [acceptControlFrameWith_fresh fresh, if_neg hne, hins]
    exact he
  | @ackUnsealed record ss advance offer keyPair fresh accepts =>
    obtain ⟨e, he⟩ := @acceptAdvance_interrupted L r frame nonce now h _ _ _ _ _ accepts
    obtain ⟨hne, hins⟩ := inspect_advance h accepts
    refine ⟨e, r.machine.committed L advance ss, ?_, trivial⟩
    rw [acceptControlFrameWith_fresh fresh, if_neg hne, hins]
    exact he

/-- Every other call throws without a change, or accepts the frame. -/
theorem acceptControlFrameWith_cases (h : r.WellFormed)
    (hi : ¬ Interrupts L r frame coins now fails) :
    (∃ e, (acceptControlFrameWith L fails frame coins nonce now).run r = .error e r) ∨
      ∃ result r', Accepted L r frame coins nonce now result r' ∧
        (acceptControlFrameWith L fails frame coins nonce now).run r = .ok result r' := by
  by_cases hf : ∃ record, Fresh L r frame now record
  case neg =>
    rcases @acceptControlFrameWith_stale L r frame coins nonce now fails (not_exists.mp hf) with
      he | ⟨result, haccepted, -, hok⟩
    · exact .inl he
    · exact .inr ⟨result, r, haccepted, hok⟩
  obtain ⟨record, hf⟩ := hf
  rw [acceptControlFrameWith_fresh hf]
  split
  · rcases @acceptAcknowledgement_cases r record now with ⟨e, he⟩ | ⟨ack, offer, advance, hd, ha⟩
    · exact .inl ⟨e, he⟩
    · exact .inr ⟨_, _, .acknowledgement hf hd ha, acceptAcknowledgement_run h hd ha⟩
  · split
    · rcases @acceptOffer_cases L r fails frame record coins nonce now with
        he | ⟨offer, ha, ⟨ct, ss, henc⟩ | ⟨e, code, henc, -⟩⟩
      · exact .inl he
      · cases fails with
        | false => exact .inr ⟨_, _, .offer hf ha henc, acceptOffer_run h ha henc⟩
        | true => exact absurd (.advanceUnsealed hf ha henc) hi
      · exact absurd (.keyRejected hf ha henc) hi
    · rcases @acceptAdvance_cases L r h fails frame record nonce now with
        he | ⟨advance, offer, keyPair, ss, ha⟩
      · exact .inl he
      · cases fails with
        | false => exact .inr ⟨_, _, .advance hf ha, acceptAdvance_run h ha⟩
        | true => exact absurd (.ackUnsealed hf ha) hi
    · exact .inl ⟨_, rfl⟩

end PqHealingRuntime

/-! ## Control operations of a session -/

namespace Session

variable (L : LibCrypto)

/-- A control operation with its inputs, coins and clock readings. -/
inductive Control
  | prepareHealing (coins : Bytes) (nonce : Nonce) (due now dispatched : Instant)
  | acceptControlFrame (frame coins : Bytes) (nonce : Nonce) (now dispatched : Instant)

/-- Run it; `fails` says whether the AEAD fails if the operation gets to seal. -/
def Control.run (fails : Bool) : Control → SessionM SessionControlOutput
  | .prepareHealing coins nonce due now dispatched =>
    prepareHealingWith L fails coins nonce due now dispatched
  | .acceptControlFrame frame coins nonce now dispatched =>
    acceptControlFrameWith L fails frame coins nonce now dispatched

/-- The backend fails after the machine has moved: an OFFER is accepted whose key cannot
be encapsulated to, or the AEAD fails on the OFFER, ADVANCE or acknowledgement that the
operation was about to send. -/
def Control.Interrupted (s : Session) (fails : Bool) : Control → Prop
  | .prepareHealing coins _ due now _ =>
    fails = true ∧ s.pq.healingDue due.val = .ok true ∧
      ∃ pk sk, Offered L s.pq coins now.val pk sk
  | .acceptControlFrame frame coins _ now _ => Interrupts L s.pq frame coins now.val fails

variable {L} {s : Session}

theorem Control.Interrupted.not_wedged {fails : Bool} {control : Control}
    (hi : control.Interrupted L s fails) : ¬ s.pq.machine.Wedged := by
  cases control with
  | prepareHealing coins nonce due now dispatched =>
    obtain ⟨-, -, pk, sk, ho⟩ := hi
    exact fun hw => hw.not_idle ho.offers.idle
  | acceptControlFrame frame coins nonce now dispatched => exact Interrupts.not_wedged hi

/-- An interrupted operation throws and leaves a wedged machine. -/
theorem Control.run_interrupted (h : s.WellFormed) {fails : Bool} {control : Control}
    (hi : control.Interrupted L s fails) :
    ∃ e m, (control.run L fails).run s =
      .error e { s with pq := s.pq.withMachine m } ∧ m.Wedged := by
  cases control with
  | prepareHealing coins nonce due now dispatched =>
    obtain ⟨rfl, hdue, pk, sk, ho⟩ := hi
    obtain ⟨e, he⟩ := @prepareHealingOfferWith_interrupted L s.pq coins nonce now.val h.runtime _ _ ho
    refine ⟨e, s.pq.machine.offering pk sk false, ?_, trivial⟩
    show (prepareHealingWith L true coins nonce due now dispatched).run s = _
    unfold prepareHealingWith
    rw [run_assertLive_bind h.live, run_get_bind, run_attempt_of_ok hdue]
    simp only [if_true]
    rw [run_bind_of_error (onPq_error he)]
  | acceptControlFrame frame coins nonce now dispatched =>
    obtain ⟨e, m, he, hw⟩ :=
      @acceptControlFrameWith_interrupted L s.pq frame coins nonce now.val fails h.runtime hi
    have hlength : frame.length = WIRE_CHUNK_FRAME_LEN := by
      cases hi with
      | keyRejected fresh => exact fresh.length
      | advanceUnsealed fresh => exact fresh.length
      | ackUnsealed fresh => exact fresh.length
    have hlen : requireBytes frame "control frame" WIRE_CHUNK_FRAME_LEN = .ok () :=
      demand_of hlength
    refine ⟨e, m, ?_, hw⟩
    show (acceptControlFrameWith L fails frame coins nonce now dispatched).run s = _
    unfold acceptControlFrameWith
    rw [run_attempt_of_ok hlen, run_assertLive_bind h.live, run_bind_of_error (onPq_error he)]

/-- Any other operation throws without a change, or leaves a well-formed session. -/
theorem Control.run_cases (h : s.WellFormed) {fails : Bool} {control : Control}
    (hi : ¬ control.Interrupted L s fails) :
    (∃ e, (control.run L fails).run s = .error e s) ∨
      ∃ output s', (control.run L fails).run s = .ok output s' ∧ s'.WellFormed := by
  cases control with
  | prepareHealing coins nonce due now dispatched =>
    show (∃ e, (prepareHealingWith L fails coins nonce due now dispatched).run s = .error e s) ∨
      ∃ output s', (prepareHealingWith L fails coins nonce due now dispatched).run s =
        .ok output s' ∧ s'.WellFormed
    cases fails with
    | false =>
      have hkept := (prepareHealing_kept (L := L) h coins nonce due now dispatched).1
      rcases @prepareHealing_cases L s h coins nonce due now dispatched with
        he | hnone | ⟨pk, sk, -, hrun⟩
      · exact .inl he
      · exact .inr ⟨_, _, hnone, h⟩
      · rw [hrun] at hkept
        exact .inr ⟨_, _, hrun, hkept⟩
    | true =>
      unfold prepareHealingWith
      rw [run_assertLive_bind h.live, run_get_bind, run_attempt_bind]
      cases hdue : s.pq.healingDue due.val with
      | error e => exact .inl ⟨e, rfl⟩
      | ok isDue =>
        cases isDue with
        | false => exact .inr ⟨_, _, rfl, h⟩
        | true =>
          rcases @prepareHealingOfferWith_cases L s.pq true coins nonce now.val with
            ⟨e, he⟩ | ⟨pk, sk, ho⟩
          · exact .inl ⟨e, run_bind_of_error (onPq_error he)⟩
          · exact absurd ⟨rfl, hdue, pk, sk, ho⟩ hi
  | acceptControlFrame frame coins nonce now dispatched =>
    show (∃ e, (acceptControlFrameWith L fails frame coins nonce now dispatched).run s =
        .error e s) ∨
      ∃ output s', (acceptControlFrameWith L fails frame coins nonce now dispatched).run s =
        .ok output s' ∧ s'.WellFormed
    rcases check_cases (requireBytes frame "control frame" WIRE_CHUNK_FRAME_LEN) with
      hlen | ⟨e, hlen⟩
    case inr =>
      refine .inl ⟨e, ?_⟩
      unfold acceptControlFrameWith
      rw [run_attempt_of_error hlen]
    rcases @acceptControlFrameWith_cases L s.pq frame coins nonce now.val fails h.runtime hi with
      ⟨e, he⟩ | ⟨result, r, haccepted, hrun⟩
    · refine .inl ⟨e, ?_⟩
      unfold acceptControlFrameWith
      rw [run_attempt_of_ok hlen, run_assertLive_bind h.live, run_bind_of_error (onPq_error he)]
    · have hr := entered_wellFormed h.runtime haccepted dispatched
      refine .inr ⟨_, _, acceptControlFrameWith_run h.live (demand_eq_ok.mp hlen) haccepted hrun, ?_⟩
      cases haccepted <;> exact (kept_withPq h hr rfl rfl rfl rfl).1

/-- A wedged session is moved by no control operation. -/
theorem Control.run_wedged (hlive : s.destroyed = false) (hw : s.pq.machine.Wedged) (fails : Bool)
    (control : Control) : finalState ((control.run L fails).run s) = s := by
  cases control with
  | prepareHealing coins nonce due now dispatched =>
    have hclock : PqHealingRuntime.requireSafeUint due.val "healing clock" = .ok () :=
      demand_of (Nat.le_trans due.property (by decide))
    have hdue : s.pq.healingDue due.val = .ok false := by
      unfold SparsePqHealingState.healingDue
      rw [hw.trafficBlocked, hclock]
      rfl
    show finalState ((prepareHealingWith L fails coins nonce due now dispatched).run s) = s
    unfold prepareHealingWith
    rw [run_assertLive_bind hlive, run_get_bind, run_attempt_of_ok hdue]
    rfl
  | acceptControlFrame frame coins nonce now dispatched =>
    show finalState ((acceptControlFrameWith L fails frame coins nonce now dispatched).run s) = s
    unfold acceptControlFrameWith
    rw [run_attempt_bind]
    cases requireBytes frame "control frame" WIRE_CHUNK_FRAME_LEN with
    | error e => rfl
    | ok u =>
      simp only [run_assertLive_bind hlive]
      rcases @acceptControlFrameWith_wedged L s.pq frame coins nonce now.val fails hw with
        ⟨e, he⟩ | ⟨result, hsame, hok⟩
      · rw [run_bind_of_error (onPq_error he)]
        rfl
      · rw [run_bind_of_ok (onPq_ok hok), run_get_bind]
        simp only [hsame, Bool.false_and]
        rfl

/-! ## Runs with failing backends -/

/-- What every session of such a run satisfies. -/
def Sound (s : Session) : Prop := s.destroyed = false ∧ (s.WellFormed ∨ s.pq.machine.Wedged)

/-- One call: an operation of the session, or a control operation whose AEAD may fail. -/
inductive FaultyStep (L : LibCrypto) (s : Session) : Session → Prop
  | op (op : Op) : FaultyStep L s (op.run L s).2
  | control (fails : Bool) (control : Control) :
    FaultyStep L s (finalState ((control.run L fails).run s))

theorem Control.sound (h : s.Sound) (fails : Bool) (control : Control) :
    (finalState ((control.run L fails).run s)).Sound := by
  obtain ⟨hlive, hwf | hw⟩ := h
  · by_cases hi : control.Interrupted L s fails
    · obtain ⟨e, m, he, hw⟩ := control.run_interrupted hwf hi
      rw [he]
      exact ⟨hlive, .inr hw⟩
    · rcases control.run_cases hwf hi with ⟨e, he⟩ | ⟨output, s', hok, hs'⟩
      · rw [he]
        exact ⟨hlive, .inl hwf⟩
      · rw [hok]
        exact ⟨hs'.live, .inl hs'⟩
  · rw [Control.run_wedged hlive hw]
    exact ⟨hlive, .inr hw⟩

/-- Sending and receiving leave a wedged machine where it is. -/
theorem Op.sound_wedged (hlive : s.destroyed = false) (hw : s.pq.machine.Wedged) (op : Op) :
    (op.run L s).2.Sound := by
  have hs : s.Sound := ⟨hlive, .inr hw⟩
  unfold Op.run
  cases op with
  | encrypt plaintext ρ =>
    rw [outcomeOf_session]
    rcases @encrypt_cases L s plaintext ρ with ⟨e, he⟩ | ⟨-, hfree, -⟩
    · rw [he]
      exact hs
    · exact absurd hfree (by rw [SparsePqHealingState.trafficBlocked, hw.trafficBlocked]; decide)
  | decrypt message secretKey =>
    rw [outcomeOf_session]
    rcases @decrypt_cases L s message secretKey with ⟨e, he⟩ | ⟨hcheck, -, plaintext, staged, hopen⟩
    · rw [he]
      exact hs
    · rw [decrypt_run hcheck hlive hopen]
      split <;> exact ⟨hlive, .inr hw⟩
  | prepareHealing coins nonce due now dispatched =>
    have hrun := Control.run_wedged (L := L) hlive hw false
      (.prepareHealing coins nonce due now dispatched)
    rw [outcomeOf_session]
    unfold Session.prepareHealing
    rw [Control.run] at hrun
    rw [hrun]
    exact hs
  | acceptControlFrame frame coins nonce now dispatched =>
    have hrun := Control.run_wedged (L := L) hlive hw false
      (.acceptControlFrame frame coins nonce now dispatched)
    rw [outcomeOf_session]
    unfold Session.acceptControlFrame
    rw [Control.run] at hrun
    rw [hrun]
    exact hs
  | pendingControl =>
    rw [outcomeOf_session]
    unfold Session.pendingControl
    rw [run_assertLive_bind hlive]
    exact hs
  | serialize =>
    rw [outcomeOf_session]
    unfold Session.serialize
    rw [run_assertLive_bind hlive, run_get_bind]
    exact Keeps.attempt _ s hs

theorem FaultyStep.sound (h : s.Sound) {s' : Session} (hstep : FaultyStep L s s') : s'.Sound := by
  cases hstep with
  | op op =>
    obtain ⟨hlive, hwf | hw⟩ := h
    · have hkept := (op.keeps (L := L) hwf).1
      exact ⟨hkept.live, .inl hkept⟩
    · exact op.sound_wedged hlive hw
  | control fails control => exact control.sound h fails

/-- A control operation on such a session changes nothing when it throws, exactly when
the backend did not interrupt it. -/
theorem atomic_iff_of_sound (h : s.Sound) (fails : Bool) (control : Control) :
    (∀ e s', (control.run L fails).run s = .error e s' → s' = s) ↔
      ¬ control.Interrupted L s fails := by
  obtain ⟨hlive, hwf | hw⟩ := h
  · constructor
    · intro hatomic hi
      obtain ⟨e, m, he, hw⟩ := control.run_interrupted hwf hi
      have hsame := hatomic e _ he
      rw [← hsame] at hi
      exact hi.not_wedged hw
    · intro hi e s' herror
      rcases control.run_cases hwf hi with ⟨e', he⟩ | ⟨output, s'', hok, -⟩
      · rw [he] at herror
        cases herror
        rfl
      · rw [hok] at herror
        cases herror
  · refine iff_of_true ?_ fun hi => hi.not_wedged hw
    intro e s' herror
    have hfinal := Control.run_wedged (L := L) hlive hw fails control
    rw [herror] at hfinal
    exact hfinal

variable {s₀ : Session}

theorem Created.sound (h : Created L s₀) (hrun : Runs (FaultyStep L) s₀ s) : s.Sound :=
  Runs.invariant (fun _ _ hsound hstep => hstep.sound hsound)
    ⟨h.live, .inl h.wellFormed⟩ hrun

/-- **Atomicity of the control operations.** In every session reached from a handshake by
any calls, with any failures of the backend on the way, a control operation that throws
leaves the whole session as it was if and only if the backend did not fail after the
machine had accepted a frame or made an OFFER. -/
theorem control_atomic_iff (hcreated : Created L s₀) (hrun : Runs (FaultyStep L) s₀ s)
    (fails : Bool) (control : Control) :
    (∀ e s', (control.run L fails).run s = .error e s' → s' = s) ↔
      ¬ control.Interrupted L s fails :=
  atomic_iff_of_sound (hcreated.sound hrun) fails control

/-- After two messages of the initiator a frame of the wrong length is refused: the call throws,
changes nothing, and was not interrupted. -/
theorem control_atomic_iff_refused : ∃ s e,
    Runs (FaultyStep .transparent) (sampleSession .transparent .initiator) s ∧
    s.pq.messagesSinceHealing = 2 ∧
    ((Control.acceptControlFrame [] [] sampleNonce ⟨0, Nat.zero_le _⟩ ⟨0, Nat.zero_le _⟩).run
      .transparent true).run s = .error e s ∧
    ¬ (Control.acceptControlFrame [] [] sampleNonce ⟨0, Nat.zero_le _⟩ ⟨0, Nat.zero_le _⟩).Interrupted
      .transparent s true := by
  obtain ⟨s, hruns, hcount, -⟩ := sample_sent
  have hfaulty : Runs (FaultyStep .transparent) (sampleSession .transparent .initiator) s := by
    refine Relation.ReflTransGen.mono ?_ _ _ hruns
    rintro s s' ⟨op, rfl⟩
    exact .op op
  refine ⟨s, _, hfaulty, hcount, rfl, ?_⟩
  refine (control_atomic_iff (sampleSession_created LibCrypto.transparent_dhLaws .initiator) hfaulty true _).mp ?_
  rintro e s' ⟨⟩
  rfl

/-! ## A key that encapsulation rejects -/

/-- A public key whose bytes are all ones: its coefficients are not reduced modulo the
field prime, so `mlk_kem_check_pk` (kem.c:43-70) refuses it. -/
def unreducedKey : Bytes := List.replicate 1184 255

/-- The transparent module with that check. -/
def checkedTransparent : LibCrypto :=
  { LibCrypto.transparent with
    mlkemEncaps := fun p pk coins =>
      if pk = unreducedKey then .error (-1) else LibCrypto.transparent.mlkemEncaps p pk coins
    length_mlkemEncaps := by
      intro p pk coins ct ss h
      split at h
      · cases h
      · exact LibCrypto.transparent.length_mlkemEncaps p pk coins ct ss h }

/-- The frame of a peer that offers this key at the first epoch of the sample edge. -/
def unreducedOfferFrame (L : LibCrypto) : Bytes :=
  sealedFrame L .mlkem768 sampleRoot sampleEdge.binding .initiatorToResponder 0 0
    (offerRecord .mlkem768 sampleEdge.binding 0 0 unreducedKey) sampleNonce

/-- Its OFFER is one the responder accepts. -/
theorem unreducedOffer_interrupts (hL : L.AeadLaws) {coins : Bytes} {code : Int}
    (hrejects : L.mlkemEncaps .mlkem768 unreducedKey coins = .error code) :
    Interrupts L (sampleSession L .responder).pq (unreducedOfferFrame L) coins 0 false := by
  have hfits : PqHealing.HeaderFits sampleEdge.binding 0 0 := ⟨rfl, Nat.zero_le _, by decide⟩
  have hzero : 0 < MAX_U64 := by decide
  have hdecodes : decodeOffer (offerRecord .mlkem768 sampleEdge.binding 0 0 unreducedKey) .mlkem768
      (some sampleEdge.binding) = .ok (offerOf .mlkem768 sampleEdge.binding 0 0 unreducedKey) :=
    decodeOffer_offerRecord hfits List.length_replicate (by simp)
  have hseal := sealable_offer rfl hdecodes
  refine .keyRejected ⟨length_sealedFrame hseal, Nat.zero_le _, ?_, ?_,
    openPqControlFrame_sealedFrame hL hseal rfl⟩
    ⟨hdecodes, rfl, rfl, rfl, rfl, rfl, hzero, hzero, hzero⟩ hrejects
  · rintro ⟨⟨⟩, -⟩
  · rintro ⟨⟨⟩, -⟩

/-- A fresh responder whose peer offers such a key throws and keeps the OFFER: its phase
has changed. -/
theorem rejected_key_leaves_phase :
    Created checkedTransparent (sampleSession checkedTransparent .responder) ∧
      ∃ e s', ((Control.acceptControlFrame (unreducedOfferFrame checkedTransparent) [] sampleNonce
          ⟨0, Nat.zero_le _⟩ ⟨0, Nat.zero_le _⟩).run checkedTransparent false).run
          (sampleSession checkedTransparent .responder) = .error e s' ∧
        s'.pq.machine.phase ≠ (sampleSession checkedTransparent .responder).pq.machine.phase := by
  have hdh : checkedTransparent.DhLaws :=
    ⟨LibCrypto.transparent_dhLaws.commutes, LibCrypto.transparent_dhLaws.defined⟩
  have haead : checkedTransparent.AeadLaws := ⟨LibCrypto.transparent_aeadLaws.open_seal⟩
  have hcreated := sampleSession_created hdh .responder
  have hrejects : checkedTransparent.mlkemEncaps .mlkem768 unreducedKey [] = .error (-1) := by
    simp only [checkedTransparent, if_true]
  have hi := @unreducedOffer_interrupts checkedTransparent haead [] (-1) hrejects
  obtain ⟨e, m, hrun, hw⟩ := @Control.run_interrupted checkedTransparent _ hcreated.wellFormed false
    (.acceptControlFrame (unreducedOfferFrame checkedTransparent) [] sampleNonce
      ⟨0, Nat.zero_le _⟩ ⟨0, Nat.zero_le _⟩) hi
  exact ⟨hcreated, e, _, hrun, hw.not_idle⟩

end Session

end P2Party
