import P2Party.PqHealing.Checkpoint

/-!
# Durable PQ transitions (`handlers/pqHealingOrchestrator.ts`)

The orchestrator never mutates the live runtime. It clones it, mutates the clone,
writes the clone's checkpoint, adopts the clone, and only then hands out the frame
to send. How the write ends is an argument.

- `mutatePqDurably`: one durable transition;
- `retry`, `offer`, `inbound`: the three mutations it is called with;
- `tickPqHealing`, `handleInboundPqControlFrame`: the callers, and when they fail the edge;
- `mutatePqDurably_of_error`, `mutatePqDurably_of_ok`: what it does with a mutation
  that throws and with one that returns;
- `retry_cases`, `offer_cases`, `inbound_run`: what the mutations do.
-/

namespace P2Party

open Base PqHealing PqControlFrame PqHealingRuntime

namespace PqHealingOrchestrator

/-! ## One durable transition -/

/-- What one edge holds: the live runtime, and the checkpoint in its durable row. -/
structure LiveEdge where
  live : SparsePqHealingState
  durable : Bytes

/-- How a write of the edge's row ends: it replaces the row; it fails and leaves the
row alone; or it fails after the row was replaced. -/
inductive Write
  | done
  | lost
  | late
deriving DecidableEq, Repr

/-- What a mutation asks for (pqHealingOrchestrator.ts:131). -/
structure PqOutcome where
  dispatch : Option Bytes
  persist : Bool
deriving DecidableEq

/-- What `mutatePqDurably` throws: `PqPersistenceError`, or what its body threw. -/
inductive PqFailure
  | persistence
  | thrown (e : JsError)
deriving DecidableEq

/-- `mutatePqDurably` (pqHealingOrchestrator.ts:125-173), under the edge's lock. It
returns the frame to send. -/
def mutatePqDurably (mutate : RuntimeM PqOutcome) (write : Write) :
    EStateM PqFailure LiveEdge (Option Bytes) := do
  let edge ← get
  let candidate ← attempt (edge.live.clone.mapError .thrown)
  match mutate.run candidate with
  | .error e _ => throw (.thrown e)
  | .ok outcome candidate =>
    if outcome.persist then
      -- the checkpoint is built inside `persistEdge`, so a failure there is one of persistence
      let row ← attempt ((candidate.serialize candidate.activeReceiveKeys).mapError
        fun _ => .persistence)
      match write with
      | .lost => throw .persistence
      | .late =>
        set { edge with durable := row }
        throw .persistence
      | .done =>
        set { edge with durable := row }
        match (adopt candidate).run edge.live with
        | .error e _ => throw (.thrown e)
        | .ok _ live =>
          set { live, durable := row : LiveEdge }
          return outcome.dispatch
    else
      return outcome.dispatch

/-- Two runtimes of one edge, in the sense of `adopt`. -/
structure SameEdge (r' r : SparsePqHealingState) : Prop where
  pqMode : r'.pqMode = r.pqMode
  rootSuite : r'.rootSuite = r.rootSuite
  amInitiator : r'.amInitiator = r.amInitiator
  binding : r'.binding = r.binding

/-- Active receive keys that a checkpoint admits. -/
def KeysFit (keys : OrdMap String Bytes) : Prop :=
  ActiveKeysOk keys ∧ keys.size ≤ MAX_ACTIVE_RECEIVE_KEYS

/-- The checkpoint of a runtime. -/
def checkpointOf (r : SparsePqHealingState) : Bytes := encodeCheckpoint r r.activeReceiveKeys

/-- How a transition ends whose mutation returned `outcome` and left `candidate`. -/
def transitionResult (edge : LiveEdge) (outcome : PqOutcome) (candidate : SparsePqHealingState)
    (write : Write) : EStateM.Result PqFailure LiveEdge (Option Bytes) :=
  if outcome.persist then
    match write with
    | .lost => .error .persistence edge
    | .late => .error .persistence { edge with durable := checkpointOf candidate }
    | .done => .ok outcome.dispatch { live := candidate, durable := checkpointOf candidate }
  else .ok outcome.dispatch edge

section Transition

variable {edge : LiveEdge} {mutate : RuntimeM PqOutcome} {candidate : SparsePqHealingState}

theorem clone_mapError (h : edge.live.WellFormed) :
    edge.live.clone.mapError PqFailure.thrown = .ok edge.live := by
  rw [SparsePqHealingState.clone_eq h]
  rfl

/-- A mutation that throws changes nothing. -/
theorem mutatePqDurably_of_error (h : edge.live.WellFormed) {e : JsError}
    (hrun : mutate.run edge.live = .error e candidate) (write : Write) :
    (mutatePqDurably mutate write).run edge = .error (.thrown e) edge := by
  unfold mutatePqDurably
  rw [run_get_bind, run_attempt_of_ok (clone_mapError h)]
  simp only [hrun]
  rfl

/-- A mutation that returns is persisted and adopted, or has no effect on the live runtime. -/
theorem mutatePqDurably_of_ok (h : edge.live.WellFormed) {outcome : PqOutcome}
    (hrun : mutate.run edge.live = .ok outcome candidate) (hwf : candidate.WellFormed)
    (hkeys : KeysFit candidate.activeReceiveKeys) (hsame : SameEdge candidate edge.live)
    (write : Write) :
    (mutatePqDurably mutate write).run edge = transitionResult edge outcome candidate write := by
  have hrow : (candidate.serialize candidate.activeReceiveKeys).mapError
      (fun _ => PqFailure.persistence) = .ok (checkpointOf candidate) := by
    rw [serialize_eq hwf hkeys.1 hkeys.2]
    rfl
  have hadopt := adopt_run hsame.pqMode hsame.rootSuite hsame.amInitiator hsame.binding
  unfold mutatePqDurably transitionResult
  rw [run_get_bind, run_attempt_of_ok (clone_mapError h)]
  simp only [hrun]
  rw [run_ite]
  split
  · rw [run_attempt_of_ok hrow]
    cases write with
    | done =>
      simp only [hadopt]
      rfl
    | lost => rfl
    | late => rfl
  · rfl

end Transition

theorem keysFit_sortedKeys {keys : OrdMap String Bytes} (h : KeysFit keys) :
    KeysFit (sortedKeys keys) := by
  refine ⟨fun entry hentry => h.1 entry ((sortedEntries_perm keys).mem_iff.mp hentry), ?_⟩
  show (sortedEntries keys).length ≤ _
  rw [length_sortedEntries]
  exact h.2

/-! ## The mutations -/

/-- The retransmission of `tickPqHealing` (pqHealingOrchestrator.ts:254-259). -/
def retry (now : Nat) : RuntimeM PqOutcome := do
  markPendingDispatched now
  match (← get).copyPendingFrame with
  | none => throw (.error "pqHealingOrchestrator: retry tick found no persisted outbox")
  | some frame => return { dispatch := some frame, persist := true }

/-- The local initiation of `tickPqHealing` (pqHealingOrchestrator.ts:269-273). -/
def offer (L : LibCrypto) (coins : Bytes) (nonce : Nonce) (now : Nat) : RuntimeM PqOutcome := do
  let frame ← prepareHealingOffer L coins nonce now
  markPendingDispatched now
  return { dispatch := some frame, persist := true }

/-- The transition of `handleInboundPqControlFrame` (pqHealingOrchestrator.ts:313-324). -/
def inbound (L : LibCrypto) (frame coins : Bytes) (nonce : Nonce) (now : Nat) :
    RuntimeM PqOutcome := do
  let result ← acceptControlFrame L frame coins nonce now
  if result.changed then
    -- a produced ADVANCE enters the retry schedule with its dispatch
    if result.dispatch.isSome ∧ (← get).pendingRetryAt.isSome then
      markPendingDispatched now
    return { dispatch := result.dispatch, persist := true }
  else
    return { dispatch := result.dispatch, persist := false }

/-- The frame a transition hands out. -/
def dispatchOf : EStateM.Result PqFailure LiveEdge (Option Bytes) → List Bytes
  | .ok (some frame) _ => [frame]
  | .ok none _ => []
  | .error _ _ => []

/-! ## Ticks and inbound frames -/

/-- Why the edge was failed. -/
inductive FailReason
  | exhausted
  | malformed
  | forked
deriving DecidableEq, Repr

/-- The transition a tick decided on, with its clock. -/
inductive TickAction
  | retry (now : Nat)
  | offer (now : Nat)
deriving DecidableEq, Repr

/-- Its clock. -/
def TickAction.now : TickAction → Nat
  | .retry now => now
  | .offer now => now

/-- The mutation it is made with. -/
def TickAction.mutation (L : LibCrypto) (coins : Bytes) (nonce : Nonce) :
    TickAction → RuntimeM PqOutcome
  | .retry now => PqHealingOrchestrator.retry now
  | .offer now => PqHealingOrchestrator.offer L coins nonce now

/-- What a tick decides. -/
inductive TickChoice
  | nothing
  | exhausted
  | act (action : TickAction)
deriving DecidableEq, Repr

/-- The orchestrator of one edge: what the edge holds, the transition a running tick still
has to make (`busy`), and why the edge was failed. -/
structure Orchestrator where
  edge : LiveEdge
  busy : Option TickAction
  failed : Option FailReason

/-- The decision of `tickPqHealing` (pqHealingOrchestrator.ts:241-268), made before it has the
edge's lock. -/
def tickChoice (pq : SparsePqHealingState) (now : Nat) (inboundBlocked quiescent : Bool) :
    TickChoice :=
  let due : Bool :=
    match pq.healingDue now with
    | .ok due => due && !pq.trafficBlocked && !inboundBlocked && quiescent
    | .error _ => false
  match pq.pendingRetryAt with
  | some retryAt =>
    if retryAt ≤ now then
      if PQ_HEAL_MAX_RETRIES ≤ pq.pendingAttempts then .exhausted else .act (.retry now)
    else if due then .act (.offer now)
    else .nothing
  | none => if due then .act (.offer now) else .nothing

theorem tickChoice_now {pq : SparsePqHealingState} {now : Nat} {inboundBlocked quiescent : Bool}
    {action : TickAction} (h : tickChoice pq now inboundBlocked quiescent = .act action) :
    action.now = now := by
  unfold tickChoice at h
  dsimp only at h
  repeat' split at h
  all_goals cases h
  all_goals rfl

/-- A frame whose deadline passed is sent again while its budget lasts. -/
theorem tickChoice_retry {pq : SparsePqHealingState} {outbox : PqHealingOutbox} {now : Nat}
    (hob : pq.outbox = some outbox) (hdeadline : outbox.nextRetryAt ≤ now)
    (hattempts : outbox.attempts < PQ_HEAL_MAX_RETRIES) (inboundBlocked quiescent : Bool) :
    tickChoice pq now inboundBlocked quiescent = .act (.retry now) := by
  have hretry : pq.pendingRetryAt = some outbox.nextRetryAt := by
    rw [SparsePqHealingState.pendingRetryAt, hob]
    rfl
  have hbudget : ¬ PQ_HEAL_MAX_RETRIES ≤ pq.pendingAttempts := by
    rw [SparsePqHealingState.pendingAttempts, hob]
    exact Nat.not_le.mpr hattempts
  unfold tickChoice
  simp only [hretry, if_pos hdeadline, if_neg hbudget]

namespace Orchestrator

/-- `failEdgeOnce` (pqHealingOrchestrator.ts:218-222). -/
def failEdgeOnce (o : Orchestrator) (reason : FailReason) : Orchestrator :=
  match o.failed with
  | some _ => o
  | none => { o with failed := some reason }

/-- `tickPqHealing` up to its transition (pqHealingOrchestrator.ts:231-268). -/
def tickPqHealing (o : Orchestrator) (now : Nat) (inboundBlocked quiescent : Bool) :
    Orchestrator :=
  if o.failed.isSome ∨ o.busy.isSome then o
  else
    match tickChoice o.edge.live now inboundBlocked quiescent with
    | .nothing => o
    | .exhausted => o.failEdgeOnce .exhausted
    | .act action => { o with busy := some action }

/-- The transition of a tick (pqHealingOrchestrator.ts:254-283): what it throws is only logged. -/
def tickTransition (L : LibCrypto) (coins : Bytes) (nonce : Nonce) (write : Write)
    (o : Orchestrator) : Orchestrator × List Bytes :=
  match o.busy with
  | none => (o, [])
  | some action =>
    let result := (mutatePqDurably (action.mutation L coins nonce) write).run o.edge
    ({ o with edge := finalState result, busy := none }, dispatchOf result)

/-- `handleInboundPqControlFrame` (pqHealingOrchestrator.ts:290-341) of an edge that had not
failed when the frame arrived. -/
def handleInboundPqControlFrame (L : LibCrypto) (frame coins : Bytes) (nonce : Nonce) (now : Nat)
    (write : Write) (o : Orchestrator) : Orchestrator × List Bytes :=
  if frame.length ≠ WIRE_CHUNK_FRAME_LEN then (o.failEdgeOnce .malformed, [])
  else
    let result := (mutatePqDurably (inbound L frame coins nonce now) write).run o.edge
    let o' := { o with edge := finalState result }
    match result with
    | .error (.thrown _) _ => (o'.failEdgeOnce .forked, [])
    | _ => (o', dispatchOf result)

/-- A frame whose transition did not throw. -/
theorem handleInboundPqControlFrame_of_transition {L : LibCrypto} {frame coins : Bytes}
    {nonce : Nonce} {now : Nat} {write : Write} {o : Orchestrator}
    (hlen : frame.length = WIRE_CHUNK_FRAME_LEN)
    {result : EStateM.Result PqFailure LiveEdge (Option Bytes)}
    (hrun : (mutatePqDurably (inbound L frame coins nonce now) write).run o.edge = result)
    (hok : ∀ e edge, result ≠ .error (.thrown e) edge) :
    o.handleInboundPqControlFrame L frame coins nonce now write =
      ({ o with edge := finalState result }, dispatchOf result) := by
  unfold handleInboundPqControlFrame
  rw [if_neg (not_not_intro hlen)]
  simp only [hrun]

end Orchestrator

/-! ## What they do -/

variable {L : LibCrypto} {r r' : SparsePqHealingState}

theorem retry_run {outbox : PqHealingOutbox} {now : Nat} (hob : r.outbox = some outbox)
    (hnow : now ≤ MAX_SAFE_INTEGER) (hattempts : outbox.attempts < PQ_HEAL_MAX_RETRIES) :
    (retry now).run r = .ok ⟨some outbox.frame, true⟩ (r.dispatched now) := by
  unfold retry
  rw [run_bind_of_ok (markPendingDispatched_run hob hnow hattempts), run_get_bind,
    SparsePqHealingState.copyPendingFrame, SparsePqHealingState.dispatched, hob]
  rfl

theorem retry_cases (now : Nat) :
    (∃ e, (retry now).run r = .error e r) ∨
      ∃ outbox, r.outbox = some outbox ∧ now ≤ MAX_SAFE_INTEGER ∧
        outbox.attempts < PQ_HEAL_MAX_RETRIES := by
  rcases @markPendingDispatched_cases r now with ⟨e, he⟩ | h
  · exact .inl ⟨e, run_bind_of_error he⟩
  · exact .inr h

theorem offer_run (h : r.WellFormed) {coins pk sk : Bytes} {nonce : Nonce} {now : Nat}
    (ho : Offered L r coins now pk sk) (hnow : now ≤ MAX_SAFE_INTEGER) :
    (offer L coins nonce now).run r = .ok ⟨some (r.offerFrame L pk nonce), true⟩
      ((r.offerMade L pk sk nonce now).dispatched now) := by
  unfold offer
  rw [run_bind_of_ok (prepareHealingOffer_run h ho),
    run_bind_of_ok (@markPendingDispatched_run (r.offerMade L pk sk nonce now) _ now rfl hnow
      (Nat.succ_pos _))]
  rfl

theorem offer_cases (coins : Bytes) (nonce : Nonce) (now : Nat) :
    (∃ e, (offer L coins nonce now).run r = .error e r) ∨
      ∃ pk sk, Offered L r coins now pk sk := by
  rcases @prepareHealingOfferWith_cases L r false coins nonce now with ⟨e, he⟩ | h
  · exact .inl ⟨e, run_bind_of_error he⟩
  · exact .inr h

/-- The runtime an inbound frame leaves behind: an ADVANCE is counted as dispatched. -/
def SparsePqHealingState.entered (r : SparsePqHealingState) (result : PqHealingControlResult)
    (now : Nat) : SparsePqHealingState :=
  if result.changed = true ∧ result.dispatch.isSome then r.dispatched now else r

theorem inbound_of_error {frame coins : Bytes} {nonce : Nonce} {now : Nat} {e : JsError}
    (h : (acceptControlFrame L frame coins nonce now).run r = .error e r') :
    (inbound L frame coins nonce now).run r = .error e r' := by
  unfold inbound
  rw [run_bind_of_error h]

/-- After a frame was accepted, its answer enters the retry schedule or the transition
ends there. -/
theorem inbound_cases {frame coins : Bytes} {nonce : Nonce} {now : Nat}
    {result : PqHealingControlResult}
    (h : (acceptControlFrame L frame coins nonce now).run r = .ok result r') :
    (∃ e, (inbound L frame coins nonce now).run r = .error e r') ∨
    (inbound L frame coins nonce now).run r = .ok ⟨result.dispatch, result.changed⟩ r' ∨
    ∃ outbox, result.changed = true ∧ r'.outbox = some outbox ∧ now ≤ MAX_SAFE_INTEGER ∧
      outbox.attempts < PQ_HEAL_MAX_RETRIES ∧
      (inbound L frame coins nonce now).run r = .ok ⟨result.dispatch, true⟩ (r'.dispatched now) := by
  unfold inbound
  rw [run_bind_of_ok h, run_ite]
  by_cases hchanged : result.changed = true
  · rw [if_pos hchanged, run_get_bind, run_ite, hchanged]
    split
    · rcases @markPendingDispatched_cases r' now with ⟨e, he⟩ | ⟨outbox, hob, hnow, hattempts⟩
      · exact .inl ⟨e, run_bind_of_error he⟩
      · refine .inr (.inr ⟨outbox, rfl, hob, hnow, hattempts, ?_⟩)
        rw [run_bind_of_ok (markPendingDispatched_run hob hnow hattempts)]
        rfl
    · exact .inr (.inl rfl)
  · rw [if_neg hchanged, eq_false_of_ne_true hchanged]
    exact .inr (.inl rfl)

theorem inbound_run (h : r.WellFormed) {frame coins : Bytes} {nonce : Nonce} {now : Nat}
    {result : PqHealingControlResult} (ha : Accepted L r frame coins nonce now result r') :
    (inbound L frame coins nonce now).run r =
      .ok ⟨result.dispatch, result.changed⟩ (SparsePqHealingState.entered r' result now) := by
  have hrun := acceptControlFrame_run h ha
  unfold inbound
  rw [run_bind_of_ok hrun]
  cases ha with
  | repeatedOffer => rfl
  | repeatedAdvance => rfl
  | acknowledgement => rfl
  | offer fresh =>
    rw [run_ite, if_pos rfl, run_get_bind, run_ite, if_pos ⟨rfl, rfl⟩,
      run_bind_of_ok (@markPendingDispatched_run (r.offerAnswered ..) _ now rfl fresh.clock
        (Nat.succ_pos _))]
    rfl
  | advance => rfl

end PqHealingOrchestrator

end P2Party
