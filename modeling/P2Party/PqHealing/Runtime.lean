import P2Party.Base.OrdMap
import P2Party.PqHealing.Frame
import P2Party.PqHealing.Transitions

/-!
# The sparse PQ healing runtime (`handlers/pqHealingRuntime.ts`)

`SparsePqHealingState` owns one healing machine together with the exact frame it
may have to send again, the caches that answer exact duplicates, the combined
keys of messages being received and the counters that say when healing is due.
Key-pair and encapsulation coins, nonces and the clock are arguments.

- `prepareHealingOffer`, `acceptControlFrame`, `markPendingDispatched`,
  `noteApplicationMessage`, `clone`, `adopt`: the methods of the source;
- `SparsePqHealingState.WellFormed`: what every reachable runtime satisfies;
- `clone_eq`, `adopt_run`: a clone of a well-formed runtime is that runtime, and
  adopting a runtime of the same edge makes it the live one.
-/

namespace P2Party

open Base PqHealing PqControlFrame

/-! ## Room modes (roomPolicy.ts) -/

/-- `RoomPqMode` (roomPolicy.ts:23-24). -/
inductive RoomPqMode
  | hybridMlkem512
  | hybridMlkem768
  | hybridMlkem1024
deriving DecidableEq, Repr

/-- `roomPqModeToParameterSet` (roomPolicy.ts:29-36). -/
def roomPqModeToParameterSet : RoomPqMode → MlKemParameterSet
  | .hybridMlkem512 => .mlkem512
  | .hybridMlkem768 => .mlkem768
  | .hybridMlkem1024 => .mlkem1024

/-- `roomPqModeToRootSuite` (roomPolicy.ts:38-43). -/
def roomPqModeToRootSuite : RoomPqMode → RatchetRootSuite
  | .hybridMlkem512 => .hybridMlkem512
  | .hybridMlkem768 => .hybridMlkem768
  | .hybridMlkem1024 => .hybridMlkem1024

/-- `rootSuiteToRoomPqMode` (roomPolicy.ts:45-50). -/
def rootSuiteToRoomPqMode : RatchetRootSuite → RoomPqMode
  | .hybridMlkem512 => .hybridMlkem512
  | .hybridMlkem768 => .hybridMlkem768
  | .hybridMlkem1024 => .hybridMlkem1024

/-- `PqMessageKeyContext` (pqMessageKey.ts): what a message key is combined with. -/
structure PqMessageKeyContext where
  rootKey : Bytes
  binding : Bytes
  rootSuite : RatchetRootSuite
  epoch : Nat
deriving DecidableEq

namespace PqHealingRuntime

/-! ## State -/

/-- `PQ_HEAL_AFTER_MESSAGES` (pqHealingRuntime.ts:59). -/
abbrev PQ_HEAL_AFTER_MESSAGES : Nat := 64

/-- `PQ_HEAL_AFTER_MS` (pqHealingRuntime.ts:60). -/
abbrev PQ_HEAL_AFTER_MS : Nat := 24 * 60 * 60 * 1000

/-- `PQ_HEAL_RETRY_MS` (pqHealingRuntime.ts:61). -/
abbrev PQ_HEAL_RETRY_MS : Nat := 5000

/-- `PQ_HEAL_MAX_RETRIES` (pqHealingRuntime.ts:62). -/
abbrev PQ_HEAL_MAX_RETRIES : Nat := 8

/-- `PqHealingOutboxKind` (pqHealingRuntime.ts:64). -/
inductive PqHealingOutboxKind
  | offer
  | advance
deriving DecidableEq, Repr

/-- `PqHealingOutbox` (pqHealingRuntime.ts:66-71). -/
structure PqHealingOutbox where
  kind : PqHealingOutboxKind
  frame : Bytes
  attempts : Nat
  nextRetryAt : Nat
deriving DecidableEq

/-- `PqHealingControlResult` (pqHealingRuntime.ts:73-84). -/
structure PqHealingControlResult where
  dispatch : Option Bytes
  changed : Bool
deriving DecidableEq

/-- `SparsePqHealingState` (pqHealingRuntime.ts:559-578); the two directions are
the two sides of `amInitiator`. -/
structure SparsePqHealingState where
  pqMode : RoomPqMode
  rootSuite : RatchetRootSuite
  binding : Bytes
  amInitiator : Bool
  machine : Machine
  messageRoot : Bytes
  outbox : Option PqHealingOutbox
  lastInboundOfferFrame : Option Bytes
  lastInboundAdvanceFrame : Option Bytes
  cachedAckFrame : Option Bytes
  activeReceiveKeys : OrdMap String Bytes
  messagesSinceHealing : Nat
  lastHealedAt : Nat

/-- Code that mutates one runtime. -/
abbrev RuntimeM := EStateM JsError SparsePqHealingState

/-- `fail` (pqHealingRuntime.ts:104-106). -/
def failure (message : String) : JsError := .error ("pqHealingRuntime: " ++ message)

/-- `requireBytes` (pqHealingRuntime.ts:117-127). -/
def requireBytes (value : Bytes) (name : String) (length : Nat) : Except JsError Unit :=
  demand (value.length = length)
    (failure (name ++ " must be exactly " ++ toString length ++ " bytes"))

/-- `requireSafeUint` (pqHealingRuntime.ts:129-137). -/
def requireSafeUint (value : Nat) (name : String) : Except JsError Unit :=
  demand (value ≤ MAX_SAFE_INTEGER) (failure (name ++ " must be a non-negative safe integer"))

namespace SparsePqHealingState

/-- `#suite`: the parameter set of the room's mode. -/
def suite (r : SparsePqHealingState) : MlKemParameterSet := roomPqModeToParameterSet r.pqMode

/-- `#outboundDirection` (pqHealingRuntime.ts:609-611). -/
def outboundDirection (r : SparsePqHealingState) : PqControlDirection :=
  if r.amInitiator then .initiatorToResponder else .responderToInitiator

/-- `#inboundDirection` (pqHealingRuntime.ts:612-614). -/
def inboundDirection (r : SparsePqHealingState) : PqControlDirection :=
  if r.amInitiator then .responderToInitiator else .initiatorToResponder

/-- `epoch` (pqHealingRuntime.ts:625-628). -/
def epoch (r : SparsePqHealingState) : Nat := r.machine.epoch

/-- `trafficBlocked` (pqHealingRuntime.ts:634-636). -/
def trafficBlocked (r : SparsePqHealingState) : Bool := r.machine.trafficBlocked

/-- `currentMessageContext` (pqHealingRuntime.ts:654-662). -/
def currentMessageContext (r : SparsePqHealingState) : PqMessageKeyContext where
  rootKey := r.messageRoot
  binding := r.binding
  rootSuite := r.rootSuite
  epoch := r.machine.epoch

/-- `resolveMessageContext` (pqHealingRuntime.ts:664-669). -/
def resolveMessageContext (r : SparsePqHealingState) (epoch : Nat) : Option PqMessageKeyContext :=
  if epoch = r.machine.epoch then some r.currentMessageContext else none

/-- `healingDue` (pqHealingRuntime.ts:678-687). -/
def healingDue (r : SparsePqHealingState) (now : Nat) : Except JsError Bool := do
  requireSafeUint now "healing clock"
  return !r.machine.trafficBlocked && r.machine.nextOfferer == .local &&
    (decide (PQ_HEAL_AFTER_MESSAGES ≤ r.messagesSinceHealing) ||
      decide (r.lastHealedAt + PQ_HEAL_AFTER_MS ≤ now))

/-- `copyPendingFrame` (pqHealingRuntime.ts:689-692). -/
def copyPendingFrame (r : SparsePqHealingState) : Option Bytes := r.outbox.map (·.frame)

/-- `pendingRetryAt` (pqHealingRuntime.ts:694-697). -/
def pendingRetryAt (r : SparsePqHealingState) : Option Nat := r.outbox.map (·.nextRetryAt)

/-- `pendingAttempts` (pqHealingRuntime.ts:699-702). -/
def pendingAttempts (r : SparsePqHealingState) : Nat := (r.outbox.map (·.attempts)).getD 0

/-- Is there an outbox of this kind? -/
def outboxIs (r : SparsePqHealingState) (kind : PqHealingOutboxKind) : Bool :=
  r.outbox.map (·.kind) == some kind

/-- `#clearDuplicateCache` (pqHealingRuntime.ts:1181-1188). -/
def clearDuplicateCache (r : SparsePqHealingState) : SparsePqHealingState :=
  { r with lastInboundOfferFrame := none, lastInboundAdvanceFrame := none, cachedAckFrame := none }

/-- `#refreshMessageRoot` (pqHealingRuntime.ts:1175-1179). -/
def refreshMessageRoot (r : SparsePqHealingState) : SparsePqHealingState :=
  { r with messageRoot := r.machine.rootKey }

end SparsePqHealingState

/-- The constructor (pqHealingRuntime.ts:580-615). -/
def SparsePqHealingState.new (pqMode : RoomPqMode) (rootSuite : RatchetRootSuite)
    (binding rootKey : Bytes) (nextOfferer : PqHealingTurn) (amInitiator : Bool) (now : Nat) :
    Except JsError SparsePqHealingState := do
  demand (roomPqModeToRootSuite pqMode = rootSuite)
    (failure "authenticated root suite and room PQ mode disagree")
  requireBytes binding "edge binding" 32
  requireBytes rootKey "PQ root" 32
  let machine ← Machine.new (roomPqModeToParameterSet pqMode) binding rootKey nextOfferer 0 0 0
  requireSafeUint now "initial healing time"
  return {
    pqMode, rootSuite, binding, amInitiator, machine
    messageRoot := machine.rootKey
    outbox := none
    lastInboundOfferFrame := none
    lastInboundAdvanceFrame := none
    cachedAckFrame := none
    activeReceiveKeys := .empty
    messagesSinceHealing := 0
    lastHealedAt := now }

/-! ## Methods -/

variable (L : LibCrypto)

/-- Run a method of the machine. -/
def onMachine {α : Type} (m : MachineM α) : RuntimeM α :=
  zoom (·.machine) (fun machine r => { r with machine }) m

/-- `noteApplicationMessage` (pqHealingRuntime.ts:671-676). -/
def noteApplicationMessage : RuntimeM Unit := do
  let r ← get
  ensure (¬ MAX_SAFE_INTEGER ≤ r.messagesSinceHealing)
    (failure "application-message counter overflow")
  set { r with messagesSinceHealing := r.messagesSinceHealing + 1 }

/-- `markPendingDispatched` (pqHealingRuntime.ts:704-717). -/
def markPendingDispatched (now : Nat) : RuntimeM Unit := do
  let r ← get
  match r.outbox with
  | none => throw (failure "there is no PQ control outbox")
  | some outbox =>
    attempt (requireSafeUint now "dispatch clock")
    ensure (¬ PQ_HEAL_MAX_RETRIES ≤ outbox.attempts)
      (failure "PQ control retry budget is exhausted")
    set { r with outbox := some { outbox with
      attempts := outbox.attempts + 1
      nextRetryAt := now + PQ_HEAL_RETRY_MS } }

/-- The end of `sealPqControlFrame` (pqHealingFrame.ts:268-269): the AEAD's return code. -/
def sealOrFail (fails : Bool) (sealedFrame : Except JsError Bytes) : Except JsError Bytes := do
  let frame ← sealedFrame
  demand (fails = false)
    (PqControlFrame.failure .invalidFrame "control-frame AEAD encryption failed")
  return frame

/-- `prepareHealingOffer` (pqHealingRuntime.ts:719-749); `fails` says whether the AEAD
fails if the method gets to seal. -/
def prepareHealingOfferWith (fails : Bool) (coins : Bytes) (nonce : Nonce) (now : Nat) :
    RuntimeM Bytes := do
  let due ← attempt ((← get).healingDue now)
  ensure (due = true) (failure "a local sparse-PQ healing exchange is not due")
  let record ← onMachine (prepareOffer L coins)
  let r ← get
  let frame ← attempt (sealOrFail fails (sealPqControlFrame L r.suite r.machine.rootKey r.binding
    r.outboundDirection r.machine.epoch record nonce))
  onMachine markOfferDispatched
  modify fun r => SparsePqHealingState.clearDuplicateCache
    { r with outbox := some { kind := .offer, frame, attempts := 0, nextRetryAt := now } }
  return frame

/-- `prepareHealingOffer` over an AEAD that works. -/
def prepareHealingOffer (coins : Bytes) (nonce : Nonce) (now : Nat) : RuntimeM Bytes :=
  prepareHealingOfferWith L false coins nonce now

/-- The acknowledgement branch of `acceptControlFrame` (pqHealingRuntime.ts:791-812). -/
def acceptAcknowledgement (record : Bytes) (now : Nat) : RuntimeM PqHealingControlResult := do
  let r ← get
  ensure (r.outboxIs .advance = true) (failure "unexpected PQ ADVANCE acknowledgement")
  let acknowledgement ← attempt (decodePqHealingAck record r.suite r.binding)
  onMachine (acceptAuthenticatedAdvanceAcknowledgement acknowledgement)
  modify fun r => SparsePqHealingState.refreshMessageRoot
    { r.clearDuplicateCache with outbox := none, messagesSinceHealing := 0, lastHealedAt := now }
  return { dispatch := none, changed := true }

/-- The OFFER branch of `acceptControlFrame` (pqHealingRuntime.ts:815-846). -/
def acceptOffer (fails : Bool) (frame record root coins : Bytes) (nonce : Nonce) (now : Nat) :
    RuntimeM PqHealingControlResult := do
  onMachine (acceptAuthenticatedOffer record)
  let advance ← onMachine (prepareAdvance L coins)
  let r ← get
  let sealedAdvance ← attempt (sealOrFail fails (sealPqControlFrame L r.suite root r.binding
    r.outboundDirection r.machine.epoch advance nonce))
  let _ ← onMachine commitPreparedAdvance
  modify fun r => SparsePqHealingState.refreshMessageRoot { r with
    outbox := some { kind := .advance, frame := sealedAdvance, attempts := 0, nextRetryAt := now }
    lastInboundOfferFrame := some frame
    lastInboundAdvanceFrame := none
    cachedAckFrame := none }
  return { dispatch := some sealedAdvance, changed := true }

/-- The ADVANCE branch of `acceptControlFrame` (pqHealingRuntime.ts:848-885). -/
def acceptAdvance (fails : Bool) (frame record : Bytes) (nonce : Nonce) (now : Nat) :
    RuntimeM PqHealingControlResult := do
  ensure ((← get).outboxIs .offer = true)
    (failure "unexpected PQ ADVANCE without a persisted OFFER")
  onMachine (acceptAuthenticatedAdvance L record)
  let acknowledgement ← onMachine commitAcceptedAdvance
  let r ← get
  let ackRecord ← attempt (encodePqHealingAck acknowledgement r.suite r.binding)
  let ackFrame ← attempt (sealOrFail fails (sealPqControlFrame L r.suite r.machine.rootKey r.binding
    r.outboundDirection acknowledgement.epoch ackRecord nonce))
  onMachine (markAdvanceAcknowledgementDispatched acknowledgement)
  modify fun r => SparsePqHealingState.refreshMessageRoot { r with
    outbox := none
    lastInboundAdvanceFrame := some frame
    cachedAckFrame := some ackFrame
    lastInboundOfferFrame := none
    messagesSinceHealing := 0
    lastHealedAt := now }
  return { dispatch := some ackFrame, changed := true }

/-- `acceptControlFrame` (pqHealingRuntime.ts:751-890). -/
def acceptControlFrameWith (fails : Bool) (frame coins : Bytes) (nonce : Nonce) (now : Nat) :
    RuntimeM PqHealingControlResult := do
  let r ← get
  attempt (requireBytes frame "PQ control frame" WIRE_CHUNK_FRAME_LEN)
  attempt (requireSafeUint now "control clock")
  if r.lastInboundOfferFrame = some frame ∧ r.outboxIs .advance = true then
    return { dispatch := r.copyPendingFrame, changed := false }
  else if r.lastInboundAdvanceFrame = some frame ∧ r.cachedAckFrame.isSome then
    return { dispatch := r.cachedAckFrame, changed := false }
  else
    let root := r.machine.rootKey
    let record ← attempt (openPqControlFrame L r.suite root r.binding r.inboundDirection
      r.machine.epoch frame)
    if record.length = PQ_HEALING_ACK_BYTES then
      acceptAcknowledgement record now
    else
      match ← attempt (inspectPqHealingRecord record r.suite) with
      | .offer _ _ => acceptOffer L fails frame record root coins nonce now
      | .advance _ _ => acceptAdvance L fails frame record nonce now

/-- `acceptControlFrame` over an AEAD that works. -/
def acceptControlFrame (frame coins : Bytes) (nonce : Nonce) (now : Nat) :
    RuntimeM PqHealingControlResult :=
  acceptControlFrameWith L false frame coins nonce now

/-- `clone` (pqHealingRuntime.ts:892-938). -/
def SparsePqHealingState.clone (r : SparsePqHealingState) : Except JsError SparsePqHealingState := do
  let fresh ← SparsePqHealingState.new r.pqMode r.rootSuite r.binding r.machine.rootKey
    r.machine.nextOfferer r.amInitiator r.lastHealedAt
  let machine ← r.machine.clone
  return { fresh with
    machine
    messageRoot := r.messageRoot
    outbox := r.outbox
    lastInboundOfferFrame := r.lastInboundOfferFrame
    lastInboundAdvanceFrame := r.lastInboundAdvanceFrame
    cachedAckFrame := r.cachedAckFrame
    activeReceiveKeys := r.activeReceiveKeys
    messagesSinceHealing := r.messagesSinceHealing
    lastHealedAt := r.lastHealedAt }

/-- `adopt` (pqHealingRuntime.ts:940-976), of another runtime than the live one. -/
def adopt (next : SparsePqHealingState) : RuntimeM Unit := do
  let r ← get
  ensure (next.pqMode = r.pqMode ∧ next.rootSuite = r.rootSuite ∧
      next.amInitiator = r.amInitiator ∧ next.binding = r.binding)
    (failure "cannot adopt a PQ runtime from another authenticated edge")
  set { r with
    machine := next.machine
    messageRoot := next.messageRoot
    outbox := next.outbox
    lastInboundOfferFrame := next.lastInboundOfferFrame
    lastInboundAdvanceFrame := next.lastInboundAdvanceFrame
    cachedAckFrame := next.cachedAckFrame
    activeReceiveKeys := next.activeReceiveKeys
    messagesSinceHealing := next.messagesSinceHealing
    lastHealedAt := next.lastHealedAt }

/-! ## Well-formed runtimes -/

/-- The phase an outbox of each kind goes with. -/
def PhaseOfOutbox : Option PqHealingOutboxKind → InternalPhase → Prop
  | none, .idle => True
  | none, .inboundOffer _ => True
  | some .offer, .outboundOffer true _ _ => True
  | some .advance, .outboundAdvanceAwaitingAck _ _ => True
  | _, _ => False

/-- What every runtime reached by the methods satisfies: a well-formed machine of
this edge, the current message root, and caches that agree with the phase. -/
structure SparsePqHealingState.WellFormed (r : SparsePqHealingState) : Prop where
  machine : r.machine.WellFormed
  binding_eq : r.machine.binding = r.binding
  suite_eq : r.machine.suite = r.suite
  rootSuite_eq : roomPqModeToRootSuite r.pqMode = r.rootSuite
  messageRoot_eq : r.messageRoot = r.machine.rootKey
  lastHealedAt : r.lastHealedAt ≤ MAX_SAFE_INTEGER
  messages : r.messagesSinceHealing ≤ MAX_SAFE_INTEGER
  phase : PhaseOfOutbox (r.outbox.map (·.kind)) r.machine.phase
  outbox : ∀ outbox ∈ r.outbox, outbox.frame.length = WIRE_CHUNK_FRAME_LEN ∧
    outbox.attempts ≤ PQ_HEAL_MAX_RETRIES ∧ outbox.nextRetryAt ≤ MAX_SAFE_INTEGER
  offerFrame : ∀ frame ∈ r.lastInboundOfferFrame,
    frame.length = WIRE_CHUNK_FRAME_LEN ∧ r.outboxIs .advance = true
  advanceFrame : ∀ frame ∈ r.lastInboundAdvanceFrame,
    frame.length = WIRE_CHUNK_FRAME_LEN ∧ r.outbox = none
  ackFrame : ∀ frame ∈ r.cachedAckFrame, frame.length = WIRE_CHUNK_FRAME_LEN
  paired : r.lastInboundAdvanceFrame.isSome = r.cachedAckFrame.isSome

variable {L} {r : SparsePqHealingState}

theorem SparsePqHealingState.WellFormed.binding_length (h : r.WellFormed) :
    r.binding.length = 32 := by
  rw [← h.binding_eq]
  exact h.machine.binding

/-- The constructor makes a well-formed runtime or throws. -/
theorem new_wellFormed {pqMode : RoomPqMode} {rootSuite : RatchetRootSuite}
    {binding rootKey : Bytes} {nextOfferer : PqHealingTurn} {amInitiator : Bool} {now : Nat}
    (h : SparsePqHealingState.new pqMode rootSuite binding rootKey nextOfferer amInitiator now =
      .ok r) : r.WellFormed := by
  unfold SparsePqHealingState.new Machine.new at h
  simp only [requireBytes, PqHealing.requireBytes, PqHealing.requireU64, requireSafeUint,
    demand_bind, ite_eq_iff, reduceCtorEq, and_false, or_false] at h
  obtain ⟨hsuite, hbinding, hroot, h⟩ := h
  obtain ⟨machine, hmachine, h⟩ := except_bind_eq_ok.mp h
  simp only [ite_eq_iff, reduceCtorEq, and_false, or_false, except_pure_eq_ok] at hmachine h
  obtain ⟨-, -, -, -, -, rfl⟩ := hmachine
  obtain ⟨hnow, rfl⟩ := h
  refine ⟨⟨hbinding, hroot, Nat.zero_le _, Nat.zero_le _, Nat.zero_le _, ?_, ?_, trivial⟩, rfl, rfl,
    hsuite, rfl, hnow, Nat.zero_le _, trivial, ?_, ?_, ?_, ?_, rfl⟩ <;> rintro _ ⟨⟩

/-- The constructor as `clone` and `restore` call it, before they set the other fields. -/
theorem new_eq (h : r.WellFormed) :
    ∃ machine, SparsePqHealingState.new r.pqMode r.rootSuite r.binding r.machine.rootKey
      r.machine.nextOfferer r.amInitiator r.lastHealedAt = .ok { r with
        machine
        messageRoot := machine.rootKey
        outbox := none
        lastInboundOfferFrame := none
        lastInboundAdvanceFrame := none
        cachedAckFrame := none
        activeReceiveKeys := .empty
        messagesSinceHealing := 0 } := by
  have hu64 : ∀ name, PqHealing.requireU64 0 name = .ok () := fun _ => demand_of (by decide)
  unfold SparsePqHealingState.new Machine.new
  simp only [requireBytes, PqHealing.requireBytes, requireSafeUint, demand_of h.rootSuite_eq,
    demand_of h.binding_length, demand_of h.machine.root, hu64, demand_of h.lastHealedAt, ok_bind]
  exact ⟨_, rfl⟩

/-- A clone of a well-formed runtime is that runtime. -/
theorem SparsePqHealingState.clone_eq (h : r.WellFormed) : r.clone = .ok r := by
  obtain ⟨machine, hnew⟩ := new_eq h
  simp only [SparsePqHealingState.clone, hnew, ok_bind, PqHealing.clone_eq h.machine]
  rfl

/-- Adopting a runtime of the same edge makes it the live one. -/
theorem adopt_run {next : SparsePqHealingState} (hmode : next.pqMode = r.pqMode)
    (hsuite : next.rootSuite = r.rootSuite) (hinit : next.amInitiator = r.amInitiator)
    (hbinding : next.binding = r.binding) : (adopt next).run r = .ok () next := by
  unfold adopt
  rw [run_get_bind, run_ensure_bind, if_pos ⟨hmode, hsuite, hinit, hbinding⟩]
  show EStateM.Result.ok () _ = _
  rw [← hmode, ← hsuite, ← hinit, ← hbinding]

theorem sealOrFail_false (sealedFrame : Except JsError Bytes) :
    sealOrFail false sealedFrame = sealedFrame := by
  cases sealedFrame <;> rfl

theorem onMachine_ok {α : Type} {x : MachineM α} {a : α} {m' : Machine}
    (h : x.run r.machine = .ok a m') : (onMachine x).run r = .ok a { r with machine := m' } := by
  rw [onMachine, run_zoom, h]

theorem onMachine_error {α : Type} {x : MachineM α} {e : JsError} {m' : Machine}
    (h : x.run r.machine = .error e m') :
    (onMachine x).run r = .error e { r with machine := m' } := by
  rw [onMachine, run_zoom, h]

end PqHealingRuntime

end P2Party
