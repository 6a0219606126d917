import P2Party.Edge.ReceiveKeys

/-!
# Admission of application sends

A send waits for the ratchet gate, polls until no healing exchange is going on, and then
steps the ratchet under the lock of the edge (handleSendMessage.ts). Meanwhile the
orchestrator ticks and handles control frames (pqHealingOrchestrator.ts): its transitions
wait for the same lock, and its gate for sends is one boolean, which every handler sets
and every handler clears. Between the admission of a send and its step there are awaits.

- `Admission`, `Event`, `step`, `runAll`: sends, ticks and handlers in any order;
- `Derives`, `Undisturbed`: a message key is derived; no exchange is going on;
- `Separate`: the events that keep sends and exchanges apart;
- `derives_undisturbed`: whole runs of separate events;
- `admitted_send_derives_in_exchange`: a send admitted while an offer has the lock.
-/

namespace P2Party

open Base PqHealing PqHealingRuntime PqHealingOrchestrator

namespace EdgeCrypto

/-! ## Sends, handlers and the orchestrator -/

/-- Where a send is: it waits for the ratchet gate, polls for admission, has been admitted,
or has called `ratchetEncryptDurably`. -/
inductive SendStage
  | gated
  | polling
  | admitted
  | stepping (id : Nat)
deriving DecidableEq

/-- A send: `sendWithReconcile` and `sendScheduled`, or `bindTransferCipherToConnection` on
the replacement connection of a transfer that resumes. -/
structure Send where
  resumes : Bool
  stage : SendStage
deriving DecidableEq

/-- A `handleInboundPqControlFrame` in progress: it drains the receive queue, or waits for
its transition. -/
structure Handler where
  frame : Bytes
  call : Option Nat
deriving DecidableEq

end EdgeCrypto

/-- A live edge with the sends on it and its orchestrator; `busy` is the call of a running
tick. -/
structure Admission where
  edge : EdgeCrypto
  sends : List EdgeCrypto.Send
  handlers : List EdgeCrypto.Handler
  busy : Option Nat
  inboundBlocked : Bool
  failed : Bool

namespace Admission

open EdgeCrypto

/-- A live edge before its first send. -/
def ofLive (live : Live) : Admission := ⟨EdgeCrypto.ofLive live, [], [], none, false, false⟩

/-- `isPqApplicationTrafficBlocked` (pqHealingOrchestrator.ts:100-106). -/
def isPqApplicationTrafficBlocked (s : Admission) : Bool :=
  if s.inboundBlocked || s.failed then true
  else (s.edge.pq.map (·.trafficBlocked)).getD false

/-- What the caller of a settled call was told. -/
def outcome? (s : Admission) (id : Nat) : Option Outcome :=
  s.edge.history.findSome? fun
    | .settled id' outcome _ _ => if id' = id then some outcome else none
    | _ => none

/-- A send goes on to another stage. -/
def setStage (s : Admission) (index : Nat) (send : Send) (stage : SendStage) : Admission :=
  { s with sends := s.sends.set index { send with stage } }

/-- `ratchetEncryptDurably` is called: the step waits for the lock. -/
def encrypt (s : Admission) (index : Nat) (send : Send) : Admission :=
  { s.setStage index send (.stepping s.edge.calls) with edge := s.edge.enqueue .encrypt }

/-- The gate of the handshake has opened or was rejected (handleSendMessage.ts:498-505,
775-783): a resumed transfer steps at once, the others poll. -/
def gate (s : Admission) (index : Nat) (opened : Bool) : Admission :=
  match s.sends[index]? with
  | some send =>
    if send.stage = .gated then
      if opened then
        if send.resumes then s.encrypt index send else s.setStage index send .polling
      else { s with sends := s.sends.eraseIdx index }
    else s
  | none => s

/-- One pass of the loop of `waitForPqTrafficAdmission` (handleSendMessage.ts:460-474); an
aborted or expired send leaves it with an exception. -/
def poll (s : Admission) (index : Nat) (expired : Bool) : Admission :=
  match s.sends[index]? with
  | some send =>
    if send.stage = .polling then
      if s.edge.pq.isSome && s.isPqApplicationTrafficBlocked then
        if expired then { s with sends := s.sends.eraseIdx index } else s
      else s.setStage index send .admitted
    else s
  | none => s

/-- The admitted send steps (handleSendMessage.ts:795-799, 1088). -/
def proceed (s : Admission) (index : Nat) : Admission :=
  match s.sends[index]? with
  | some send => if send.stage = .admitted then s.encrypt index send else s
  | none => s

/-- The decision of a tick (pqHealingOrchestrator.ts:231-268). -/
def tickChoice (s : Admission) (now : Nat) (quiescent : Bool) : TickChoice :=
  match s.edge.pq with
  | none => .nothing
  | some pq =>
    if s.failed || s.busy.isSome then .nothing
    else PqHealingOrchestrator.tickChoice pq now s.inboundBlocked quiescent

/-- The transition a tick makes. -/
def tickTransition (coins : Bytes) (nonce : Nonce) : TickAction → Transition
  | .retry now => .retry now
  | .offer now => .offer coins nonce now

/-- `tickPqHealing` (pqHealingOrchestrator.ts:231-277) up to its transition. -/
def tickPqHealing (s : Admission) (now : Nat) (quiescent : Bool) (coins : Bytes) (nonce : Nonce) :
    Admission :=
  match s.tickChoice now quiescent with
  | .nothing => s
  | .exhausted => { s with failed := true }
  | .act action => { s with
      busy := some s.edge.calls
      edge := s.edge.enqueue (.transition (tickTransition coins nonce action)) }

/-- The `finally` of a tick (pqHealingOrchestrator.ts:281-283). -/
def ticked (s : Admission) : Admission :=
  match s.busy with
  | some id => if (s.outcome? id).isSome then { s with busy := none } else s
  | none => s

/-- Does the frame close the gate for sends? -/
def takes (s : Admission) (frame : Bytes) : Bool :=
  !s.failed && s.edge.pq.isSome && frame.length == WIRE_CHUNK_FRAME_LEN

/-- `handleInboundPqControlFrame` (pqHealingOrchestrator.ts:290-307) up to its first await. -/
def handleInboundPqControlFrame (s : Admission) (frame : Bytes) : Admission :=
  if s.takes frame then
    { s with inboundBlocked := true, handlers := s.handlers ++ [⟨frame, none⟩] }
  else if !s.failed && s.edge.pq.isSome then { s with failed := true }
  else s

/-- The receive queue is drained, and the handler calls for its transition
(pqHealingOrchestrator.ts:310-325). -/
def drained (s : Admission) (index : Nat) (coins : Bytes) (nonce : Nonce) (now : Nat) : Admission :=
  match s.handlers[index]? with
  | some handler =>
    if handler.call = none then
      { s with
        handlers := s.handlers.set index { handler with call := some s.edge.calls }
        edge := s.edge.enqueue (.transition (.inbound handler.frame coins nonce now)) }
    else s
  | none => s

/-- Does a handler fail the edge for this outcome (pqHealingOrchestrator.ts:326-340)? -/
def fails : Outcome → Bool
  | .thrown _ => true
  | _ => false

/-- The handler has its answer; its `finally` opens the gate (pqHealingOrchestrator.ts:326-343). -/
def handled (s : Admission) (index : Nat) : Admission :=
  match s.handlers[index]? with
  | some handler =>
    match handler.call.bind s.outcome? with
    | some outcome =>
      { s with
        handlers := s.handlers.eraseIdx index
        inboundBlocked := false
        failed := s.failed || fails outcome }
    | none => s
  | none => s

/-! ## Runs -/

/-- What happens next. What the receive queue and the channels of the edge answer is an
argument. -/
inductive Event
  | send (resumes : Bool)
  | gate (index : Nat) (opened : Bool)
  | poll (index : Nat) (expired : Bool)
  | proceed (index : Nat)
  | tick (now : Nat) (quiescent : Bool) (coins : Bytes) (nonce : Nonce)
  | ticked
  | control (frame : Bytes)
  | drained (index : Nat) (coins : Bytes) (nonce : Nonce) (now : Nat)
  | handled (index : Nat)
  | receive (frame merkleRoot secretKey : Bytes)
  | retire (cacheKey : String)
  | resume (owner : Bool)
  | written (write : Write)

variable (L : LibCrypto)

/-- One event. -/
def step (event : Event) (s : Admission) : Admission :=
  match event with
  | .send resumes => { s with sends := s.sends ++ [⟨resumes, .gated⟩] }
  | .gate index opened => s.gate index opened
  | .poll index expired => s.poll index expired
  | .proceed index => s.proceed index
  | .tick now quiescent coins nonce => s.tickPqHealing now quiescent coins nonce
  | .ticked => s.ticked
  | .control frame => s.handleInboundPqControlFrame frame
  | .drained index coins nonce now => s.drained index coins nonce now
  | .handled index => s.handled index
  | .receive frame merkleRoot secretKey =>
    { s with edge := s.edge.receive frame merkleRoot secretKey }
  | .retire cacheKey => { s with edge := s.edge.enqueue (.forget s.edge.cache cacheKey) }
  | .resume owner => { s with edge := EdgeCrypto.step L (.resume owner) s.edge }
  | .written write => { s with edge := EdgeCrypto.step L (.written write) s.edge }

/-- A run. -/
def runAll (events : List Event) (s : Admission) : Admission :=
  events.foldl (fun s event => step L event s) s

/-- A run every event of which satisfies a condition in the state it meets. -/
def Throughout (p : Event → Admission → Prop) : List Event → Admission → Prop
  | [], _ => True
  | event :: events, s => p event s ∧ Throughout p events (step L event s)

/-! ## What is asked of them -/

/-- `ratchetEncryptDurably` derives a message key: an encrypt call has the lock and stages. -/
def Derives (event : Event) (s : Admission) : Prop :=
  ∃ owner call rest staged, event = .resume owner ∧ s.edge.queue = call :: rest ∧
    call.phase = .queued ∧ call.request = .encrypt ∧ stageEncrypt L s.edge.toLive = .ok staged

/-- The machine is idle and no control frame is being processed. -/
def Undisturbed (s : Admission) : Prop :=
  (∀ r ∈ s.edge.pq, r.machine.phase = .idle) ∧ s.handlers = []

end Admission

/-- The call is a PQ transition. -/
def EdgeCrypto.Call.Transitions (call : EdgeCrypto.Call) : Prop :=
  ∃ transition, call.request = .transition transition

/-- The call is a send that waits for the lock. -/
def EdgeCrypto.Call.Sends (call : EdgeCrypto.Call) : Prop :=
  call.request = .encrypt ∧ call.phase = .queued

namespace Admission

open EdgeCrypto

/-- No send stands between its admission and its step. -/
def NoneAdmitted (s : Admission) : Prop := ∀ send ∈ s.sends, send.stage ≠ .admitted

/-- No transition is queued or running. -/
def NoTransition (s : Admission) : Prop := ∀ call ∈ s.edge.queue, ¬ call.Transitions

/-- What keeps sends and exchanges apart: when the check lets a send through, no transition
is queued or running and no control frame is in progress; a transfer resumes on an edge
without an exchange; no transition of a tick starts between the admission of a send and its
step; and no control frame arrives while an admitted send has not derived its key. -/
def Separate (event : Event) (s : Admission) : Prop :=
  match event with
  | .gate index opened => ∀ send ∈ s.sends[index]?, send.stage = .gated → send.resumes = true →
    opened = true → s.Undisturbed ∧ s.NoTransition
  | .poll index _ => ∀ send ∈ s.sends[index]?, send.stage = .polling →
    (s.edge.pq.isSome && s.isPqApplicationTrafficBlocked) = false → s.NoTransition ∧ s.handlers = []
  | .tick now quiescent _ _ => ∀ action, s.tickChoice now quiescent = .act action → s.NoneAdmitted
  | .control frame => s.takes frame = true →
    s.NoneAdmitted ∧ ∀ call ∈ s.edge.queue, ¬ call.Sends
  | _ => True

end Admission

/-! ## What the head of the lock can do -/

namespace EdgeCrypto

/-- The phases of a transition are those of a call for one. -/
def Phase.Of (request : Request) : Phase → Prop
  | .mutating _ => ∃ transition, request = .transition transition
  | .staged (.transition _ _) => ∃ transition, request = .transition transition
  | .writing (.transition _ _) _ => ∃ transition, request = .transition transition
  | _ => True

/-- The machine of an edge. -/
def machine? (s : EdgeCrypto) : Option Machine := s.pq.map (·.machine)

variable {L : LibCrypto} {s s' : EdgeCrypto} {call : Call} {rest : List Call}

/-- The head leaves or goes on, and only a transition touches the machine. -/
def Moves (s s' : EdgeCrypto) (call : Call) (rest : List Call) : Prop :=
  (s'.queue = rest ∨ ∃ phase, phase ≠ .queued ∧ phase.Of call.request ∧
      s'.queue = { call with phase } :: rest) ∧
    (¬ call.Transitions → s'.machine? = s.machine?)

theorem moves_settle (hmachine : ¬ call.Transitions → s'.machine? = s.machine?) (outcome : Outcome) :
    Moves s (s'.settle call rest outcome) call rest := ⟨.inl rfl, hmachine⟩

theorem moves_advance {phase : Phase} (hqueued : phase ≠ .queued) (hof : phase.Of call.request) :
    Moves s (s.advance call rest phase) call rest := ⟨.inr ⟨phase, hqueued, hof, rfl⟩, fun _ => rfl⟩

theorem begin_moves : Moves s (s.begin L call rest) call rest := by
  unfold EdgeCrypto.begin
  split
  · split
    · exact moves_settle (fun _ => rfl) _
    case h_2 staged hstage =>
      obtain ⟨candidate, messageKey, header, pqContext, rfl, -, -⟩ := stageEncrypt_cases hstage
      exact moves_advance nofun trivial
  · split
    · exact moves_settle (fun _ => rfl) _
    · exact moves_settle (fun _ => rfl) _
    case h_3 staged hstage =>
      obtain ⟨candidate, cacheKey, messageKey, chunk, rfl, -, -, -⟩ := stageDecrypt_cases hstage
      exact moves_advance nofun trivial
  · split
    case h_1 staged hstage =>
      obtain ⟨candidate, rfl, -⟩ := stageForget_cases hstage
      exact moves_advance nofun trivial
    · split
      · exact moves_settle (fun _ => rfl) _
      · exact moves_settle (fun _ => rfl) _
  case h_4 transition hrequest =>
    split
    · exact moves_settle (fun _ => rfl) _
    · split
      · exact moves_settle (fun _ => rfl) _
      · exact moves_advance nofun ⟨transition, hrequest⟩

theorem mutated_moves {candidate : SparsePqHealingState}
    (hphase : call.phase = .mutating candidate) (hof : call.phase.Of call.request) :
    Moves s (s.mutated L call rest candidate) call rest := by
  rw [hphase] at hof
  obtain ⟨transition, hrequest⟩ := hof
  unfold EdgeCrypto.mutated
  rw [hrequest]
  simp only
  split
  · exact moves_settle (fun _ => rfl) _
  · split
    · exact moves_advance nofun ⟨transition, hrequest⟩
    · exact moves_settle (fun _ => rfl) _

theorem post_moves {staged : Staged} (hphase : call.phase = .staged staged)
    (hof : call.phase.Of call.request) (owner : Bool) :
    Moves s (s.post call rest staged owner) call rest := by
  rw [hphase] at hof
  unfold EdgeCrypto.post
  split
  · refine moves_advance nofun ?_
    cases staged with
    | encrypt _ _ _ _ => trivial
    | decrypt _ _ _ _ _ _ => trivial
    | forget _ _ _ _ => trivial
    | transition _ _ => exact hof
  · exact moves_settle (fun _ => rfl) _

/-- Counting a message leaves the machine. -/
theorem noteApplicationMessage_machine {live live' : Live} (h : live.noteApplicationMessage = .ok live') :
    live'.pq.map (·.machine) = live.pq.map (·.machine) := by
  unfold Live.noteApplicationMessage at h
  split at h
  · cases h
    rfl
  case h_2 r hr =>
    rw [noteApplicationMessage_run] at h
    split at h
    · case h_1 hrun =>
      cases h
      split at hrun
      · cases hrun
        rw [hr]
        rfl
      · cases hrun
    · cases h

theorem counted_moves (hmachine : s'.machine? = s.machine?) (outcome : Outcome)
    {failed : Live → Live} (hfailed : ∀ live, (failed live).pq = live.pq) :
    Moves s (s'.counted call rest outcome failed) call rest := by
  unfold EdgeCrypto.counted
  split
  case h_1 live hnote =>
    exact ⟨.inl rfl, fun _ => (noteApplicationMessage_machine hnote).trans hmachine⟩
  case h_2 =>
    refine moves_settle (fun _ => ?_) _
    show ((failed s'.toLive).pq).map _ = _
    rw [hfailed]
    exact hmachine

theorem answer_moves {staged : Staged} {row : Row} (hphase : call.phase = .writing staged row)
    (hof : call.phase.Of call.request) (write : Write) :
    Moves s (s.answer call rest staged row write) call rest := by
  rw [hphase] at hof
  unfold EdgeCrypto.answer
  cases write with
  | lost => exact moves_settle (fun _ => rfl) _
  | late => exact ⟨.inl rfl, fun _ => rfl⟩
  | done =>
    unfold EdgeCrypto.commit
    cases staged with
    | encrypt _ _ _ _ => exact counted_moves rfl _ fun _ => rfl
    | decrypt _ _ _ _ _ _ =>
      simp only
      split
      · exact counted_moves rfl _ fun _ => rfl
      · exact moves_settle (fun _ => rfl) _
    | forget _ _ _ _ => exact moves_settle (fun _ => rfl) _
    | transition candidate dispatch =>
      -- the one commit that replaces the machine
      have hleaves : ∀ {s' : EdgeCrypto} {outcome : Outcome},
          Moves s (s'.settle call rest outcome) call rest := fun {_ _} =>
        moves_settle (fun hother => absurd hof hother) _
      simp only
      split
      · exact hleaves
      · split
        · exact hleaves
        · exact hleaves

/-- One step of the lock's head. -/
theorem step_moves (hof : ∀ call ∈ s.queue, call.phase.Of call.request) {event : Event}
    (hevent : (∃ owner, event = .resume owner) ∨ ∃ write, event = .written write) :
    step L event s = s ∨ ∃ call rest, s.queue = call :: rest ∧ Moves s (step L event s) call rest := by
  rcases hevent with ⟨owner, rfl⟩ | ⟨write, rfl⟩
  · unfold step
    simp only
    split
    · exact .inl rfl
    case h_2 call rest hqueue =>
      have hof := hof call (by rw [hqueue]; exact List.mem_cons_self)
      split
      case h_1 => exact .inr ⟨call, rest, hqueue, begin_moves⟩
      case h_2 hphase => exact .inr ⟨call, rest, hqueue, mutated_moves hphase hof⟩
      case h_3 hphase => exact .inr ⟨call, rest, hqueue, post_moves hphase hof owner⟩
      case h_4 => exact .inl rfl
  · unfold step
    simp only
    split
    · exact .inl rfl
    case h_2 call rest hqueue =>
      have hof := hof call (by rw [hqueue]; exact List.mem_cons_self)
      split
      case h_1 hphase => exact .inr ⟨call, rest, hqueue, answer_moves hphase hof write⟩
      case h_2 => exact .inl rfl

end EdgeCrypto

/-! ## Separate runs -/

namespace Admission

open EdgeCrypto

variable {L : LibCrypto} {s s' : Admission}

/-- The invariant: sends that are past the check and have not derived their key stand
alone. -/
structure Apart (s : Admission) : Prop where
  phases : ∀ call ∈ s.edge.queue, call.phase.Of call.request
  order : s.edge.queue.Pairwise fun a b => a.Transitions → ¬ b.Sends
  waiting : ∀ call ∈ s.edge.queue, call.Sends → s.Undisturbed
  admitted : ∀ send ∈ s.sends, send.stage = .admitted → s.Undisturbed ∧ s.NoTransition

/-- A call that joins the queue while no send stands between check and step. -/
theorem Apart.enqueue (h : Apart s) (request : Request)
    (hsends : request = .encrypt → s.Undisturbed ∧ s.NoTransition)
    (hadmitted : (∃ transition, request = .transition transition) → s.NoneAdmitted) :
    Apart { s with edge := s.edge.enqueue request } := by
  have hmem : ∀ {call : Call}, call ∈ (s.edge.enqueue request).queue →
      call ∈ s.edge.queue ∨ call = ⟨s.edge.calls, request, .queued⟩ := by
    intro call hcall
    rcases List.mem_append.mp hcall with hcall | hcall
    · exact .inl hcall
    · exact .inr (List.mem_singleton.mp hcall)
  refine ⟨fun call hcall => ?_, ?_, fun call hcall hsend => ?_, fun send hsend hstage => ?_⟩
  · rcases hmem hcall with hcall | rfl
    · exact h.phases call hcall
    · trivial
  · refine List.pairwise_append.mpr ⟨h.order, List.pairwise_singleton _ _, fun a ha b hb htransition hsend => ?_⟩
    rw [List.mem_singleton.mp hb] at hsend
    exact (hsends hsend.1).2 a ha htransition
  · rcases hmem hcall with hcall | rfl
    · exact h.waiting call hcall hsend
    · exact (hsends hsend.1).1
  · obtain ⟨hundisturbed, hnone⟩ := h.admitted send hsend hstage
    refine ⟨hundisturbed, fun call hcall htransition => ?_⟩
    rcases hmem hcall with hcall | rfl
    · exact hnone call hcall htransition
    · exact hadmitted htransition send hsend hstage

/-- Other sends and handlers, on the same edge. -/
theorem Apart.frame (h : Apart s) (hedge : s'.edge = s.edge)
    (hhandlers : s.handlers = [] → s'.handlers = [])
    (hsends : ∀ send ∈ s'.sends, send.stage = .admitted →
      send ∈ s.sends ∨ s.Undisturbed ∧ s.NoTransition) : Apart s' := by
  have hundisturbed : s.Undisturbed → s'.Undisturbed := fun hu => by
    refine ⟨?_, hhandlers hu.2⟩
    rw [hedge]
    exact hu.1
  have hnone : s.NoTransition → s'.NoTransition := fun hn => by
    unfold NoTransition
    rw [hedge]
    exact hn
  refine ⟨?_, ?_, fun call hcall hsend => ?_, fun send hsend hstage => ?_⟩
  · rw [hedge]
    exact h.phases
  · rw [hedge]
    exact h.order
  · rw [hedge] at hcall
    exact hundisturbed (h.waiting call hcall hsend)
  · rcases hsends send hsend hstage with hold | hopen
    · exact (h.admitted send hold hstage).imp hundisturbed hnone
    · exact hopen.imp hundisturbed hnone

/-- A step of the lock's head. -/
theorem Apart.moves (h : Apart s) {edge : EdgeCrypto} {call : Call} {rest : List Call}
    (hqueue : s.edge.queue = call :: rest) (hmoves : Moves s.edge edge call rest) :
    Apart { s with edge } := by
  have hphases := h.phases
  have horder := h.order
  rw [hqueue] at hphases horder
  obtain ⟨hahead, hbehind⟩ := List.pairwise_cons.mp horder
  obtain ⟨hshape, hmachine⟩ := hmoves
  -- with a transition at the head nobody is past the check
  have hkeeps : ¬ call.Transitions → s.Undisturbed → Undisturbed { s with edge } := by
    intro hother hundisturbed
    refine ⟨fun r hr => ?_, hundisturbed.2⟩
    have hsame : some r.machine = s.edge.machine? := by
      rw [← hmachine hother]
      unfold machine?
      rw [hr]
      rfl
    obtain ⟨r', hr', hmachine'⟩ := Option.map_eq_some_iff.mp hsame.symm
    rw [← hmachine']
    exact hundisturbed.1 r' hr'
  have hwaiting : ∀ other ∈ rest, other.Sends → Undisturbed { s with edge } := by
    intro other hother hsend
    refine hkeeps (fun htransition => hahead other hother htransition hsend) ?_
    exact h.waiting other (by rw [hqueue]; exact List.mem_cons_of_mem _ hother) hsend
  have hadmitted : ∀ send ∈ s.sends, send.stage = .admitted →
      Undisturbed { s with edge } ∧ ∀ other ∈ call :: rest, ¬ other.Transitions := by
    intro send hsend hstage
    obtain ⟨hundisturbed, hnone⟩ := h.admitted send hsend hstage
    unfold NoTransition at hnone
    rw [hqueue] at hnone
    exact ⟨hkeeps (hnone call List.mem_cons_self) hundisturbed, hnone⟩
  rcases hshape with hshape | ⟨phase, hqueued, hof, hshape⟩
  · refine ⟨?_, ?_, ?_, fun send hsend hstage => ⟨(hadmitted send hsend hstage).1, ?_⟩⟩
    · show ∀ other ∈ edge.queue, _
      rw [hshape]
      exact fun other hother => hphases other (List.mem_cons_of_mem _ hother)
    · show edge.queue.Pairwise _
      rw [hshape]
      exact hbehind
    · show ∀ other ∈ edge.queue, _
      rw [hshape]
      exact hwaiting
    · show ∀ other ∈ edge.queue, _
      rw [hshape]
      exact fun other hother => (hadmitted send hsend hstage).2 other (List.mem_cons_of_mem _ hother)
  · refine ⟨?_, ?_, ?_, fun send hsend hstage => ⟨(hadmitted send hsend hstage).1, ?_⟩⟩
    · show ∀ other ∈ edge.queue, _
      rw [hshape]
      exact List.forall_mem_cons.mpr ⟨hof, fun other hother => hphases other (List.mem_cons_of_mem _ hother)⟩
    · show edge.queue.Pairwise _
      rw [hshape]
      exact List.pairwise_cons.mpr ⟨hahead, hbehind⟩
    · show ∀ other ∈ edge.queue, _
      rw [hshape]
      exact List.forall_mem_cons.mpr ⟨fun hsend => absurd hsend.2 hqueued, hwaiting⟩
    · show ∀ other ∈ edge.queue, _
      rw [hshape]
      exact List.forall_mem_cons.mpr (List.forall_mem_cons.mp (hadmitted send hsend hstage).2)

/-- An eviction touches staged copies only. -/
theorem Apart.evict (h : Apart s) : Apart { s with edge := s.edge.evict } := by
  have hmem : ∀ {call : Call}, call ∈ s.edge.evict.queue → ∃ old ∈ s.edge.queue,
      call.request = old.request ∧ (call.phase = .queued ↔ old.phase = .queued) ∧
        (old.phase.Of old.request → call.phase.Of call.request) := by
    intro call hcall
    obtain ⟨old, hold, rfl⟩ := List.mem_map.mp hcall
    refine ⟨old, hold, rfl, (wipe_cases old.phase _ _ s.edge.ratchet).2.2, ?_⟩
    show old.phase.Of old.request → (old.phase.wipe _ _).Of old.request
    cases old.phase with
    | staged work => cases work <;> exact id
    | _ => exact id
  have hsends : ∀ {call old : Call}, call.request = old.request →
      (call.phase = .queued ↔ old.phase = .queued) → call.Sends → old.Sends :=
    fun hrequest hphase hsend => ⟨hrequest ▸ hsend.1, hphase.mp hsend.2⟩
  refine ⟨fun call hcall => ?_, ?_, fun call hcall hsend => ?_, fun send hsend hstage => ?_⟩
  · obtain ⟨old, hold, -, -, hof⟩ := hmem hcall
    exact hof (h.phases old hold)
  · show (s.edge.queue.map _).Pairwise _
    refine List.pairwise_map.mpr (h.order.imp fun {a b} hab htransition hsend => ?_)
    exact hab htransition ⟨hsend.1, (wipe_cases b.phase _ _ s.edge.ratchet).2.2.mp hsend.2⟩
  · obtain ⟨old, hold, hrequest, hphase, -⟩ := hmem hcall
    exact h.waiting old hold (hsends hrequest hphase hsend)
  · obtain ⟨hundisturbed, hnone⟩ := h.admitted send hsend hstage
    refine ⟨hundisturbed, fun call hcall htransition => ?_⟩
    obtain ⟨old, hold, hrequest, -, -⟩ := hmem hcall
    obtain ⟨transition, htransition⟩ := htransition
    exact hnone old hold ⟨transition, hrequest ▸ htransition⟩

/-- A send that is not admitted takes another stage. -/
theorem Apart.setStage (h : Apart s) (index : Nat) (send : Send) {stage : SendStage}
    (hstage : stage = .admitted → s.Undisturbed ∧ s.NoTransition) :
    Apart (s.setStage index send stage) := by
  refine h.frame rfl id fun other hother hadmitted => ?_
  rcases List.mem_or_eq_of_mem_set hother with hother | rfl
  · exact .inl hother
  · exact .inr (hstage hadmitted)

/-- A send leaves. -/
theorem Apart.leave (h : Apart s) (index : Nat) :
    Apart { s with sends := s.sends.eraseIdx index } :=
  h.frame rfl id fun _ hother _ => .inl (List.mem_of_mem_eraseIdx hother)

theorem Apart.encrypt (h : Apart s) (index : Nat) (send : Send)
    (hopen : s.Undisturbed ∧ s.NoTransition) : Apart (s.encrypt index send) := by
  have hset := @Apart.setStage s h index send (.stepping s.edge.calls) nofun
  exact hset.enqueue .encrypt (fun _ => hopen) nofun

theorem Apart.gate (h : Apart s) {index : Nat} {opened : Bool}
    (hseparate : Separate (.gate index opened) s) : Apart (s.gate index opened) := by
  unfold Admission.gate
  split
  case h_2 => exact h
  case h_1 send hsend =>
    have hseparate := hseparate send hsend
    split
    case isFalse => exact h
    case isTrue hgated =>
      split
      case isFalse => exact h.leave index
      case isTrue hopened =>
        split
        case isTrue hresumes => exact h.encrypt index send (hseparate hgated hresumes hopened)
        case isFalse => exact h.setStage index send nofun

theorem Apart.poll (h : Apart s) {index : Nat} {expired : Bool}
    (hseparate : Separate (.poll index expired) s) : Apart (s.poll index expired) := by
  unfold Admission.poll
  split
  case h_2 => exact h
  case h_1 send hsend =>
    have hseparate := hseparate send hsend
    split
    case isFalse => exact h
    case isTrue hpolling =>
      split
      case isTrue =>
        split
        · exact h.leave index
        · exact h
      case isFalse hchecked =>
        have hchecked : (s.edge.pq.isSome && s.isPqApplicationTrafficBlocked) = false :=
          Bool.not_eq_true _ ▸ hchecked
        obtain ⟨hnone, hhandlers⟩ := hseparate hpolling hchecked
        refine h.setStage index send fun _ => ⟨⟨fun r hr => ?_, hhandlers⟩, hnone⟩
        -- the check itself: the machine of a runtime is idle
        have hr : s.edge.pq = some r := hr
        unfold isPqApplicationTrafficBlocked at hchecked
        rw [hr] at hchecked
        split at hchecked
        · cases hchecked
        · by_contra hphase
          simp [SparsePqHealingState.trafficBlocked, Machine.trafficBlocked, hphase] at hchecked

theorem Apart.proceed (h : Apart s) (index : Nat) : Apart (s.proceed index) := by
  unfold Admission.proceed
  split
  case h_2 => exact h
  case h_1 send hsend =>
    split
    case isTrue hadmitted =>
      exact h.encrypt index send (h.admitted send (List.mem_of_getElem? hsend) hadmitted)
    case isFalse => exact h

theorem Apart.tickPqHealing (h : Apart s) {now : Nat} {quiescent : Bool} {coins : Bytes}
    {nonce : Nonce} (hseparate : Separate (.tick now quiescent coins nonce) s) :
    Apart (s.tickPqHealing now quiescent coins nonce) := by
  unfold Admission.tickPqHealing
  split
  case h_1 => exact h
  case h_2 => exact h.frame rfl id fun _ hother _ => .inl hother
  case h_3 action hchoice =>
    have henqueue := h.enqueue (.transition (tickTransition coins nonce action)) nofun
      fun _ => hseparate action hchoice
    exact henqueue.frame rfl id fun _ hother _ => .inl hother

theorem Apart.handleInboundPqControlFrame (h : Apart s) {frame : Bytes}
    (hseparate : Separate (.control frame) s) : Apart (s.handleInboundPqControlFrame frame) := by
  unfold Admission.handleInboundPqControlFrame
  split
  case isTrue htakes =>
    obtain ⟨hnone, hsends⟩ := hseparate htakes
    exact ⟨h.phases, h.order, fun call hcall hsend => absurd hsend (hsends call hcall),
      fun send hsend hstage => absurd hstage (hnone send hsend)⟩
  case isFalse =>
    split
    · exact h.frame rfl id fun _ hother _ => .inl hother
    · exact h

theorem Apart.drained (h : Apart s) (index : Nat) (coins : Bytes) (nonce : Nonce) (now : Nat) :
    Apart (s.drained index coins nonce now) := by
  unfold Admission.drained
  split
  case h_2 => exact h
  case h_1 handler hhandler =>
    split
    case isFalse => exact h
    case isTrue =>
      have hsome : s.handlers ≠ [] := List.ne_nil_of_mem (List.mem_of_getElem? hhandler)
      have henqueue := h.enqueue (.transition (.inbound handler.frame coins nonce now)) nofun
        fun _ send hsend hstage => hsome (h.admitted send hsend hstage).1.2
      exact henqueue.frame rfl (fun hnil => absurd hnil hsome) fun _ hother _ => .inl hother

theorem Apart.handled (h : Apart s) (index : Nat) : Apart (s.handled index) := by
  unfold Admission.handled
  split
  case h_2 => exact h
  case h_1 handler hhandler =>
    have hsome : s.handlers ≠ [] := List.ne_nil_of_mem (List.mem_of_getElem? hhandler)
    split
    · exact h.frame rfl (fun hnil => absurd hnil hsome) fun _ hother _ => .inl hother
    · exact h

theorem Apart.headStep (h : Apart s) {event : EdgeCrypto.Event}
    (hevent : (∃ owner, event = .resume owner) ∨ ∃ write, event = .written write) :
    Apart { s with edge := EdgeCrypto.step L event s.edge } := by
  rcases @step_moves L s.edge h.phases event hevent with hsame | ⟨call, rest, hqueue, hmoves⟩
  · rw [hsame]
    exact h
  · exact h.moves hqueue hmoves

/-- A separate event keeps sends and exchanges apart. -/
theorem step_apart (h : Apart s) {event : Event} (hseparate : Separate event s) :
    Apart (step L event s) := by
  cases event with
  | send resumes =>
    refine h.frame rfl id fun send hsend hstage => ?_
    rcases List.mem_append.mp hsend with hsend | hsend
    · exact .inl hsend
    · rw [List.mem_singleton.mp hsend] at hstage
      cases hstage
  | gate index opened => exact h.gate hseparate
  | poll index expired => exact h.poll hseparate
  | proceed index => exact h.proceed index
  | tick now quiescent coins nonce => exact h.tickPqHealing hseparate
  | ticked =>
    show Apart s.ticked
    unfold Admission.ticked
    split
    · split
      · exact h.frame rfl id fun _ hother _ => .inl hother
      · exact h
    · exact h
  | control frame => exact h.handleInboundPqControlFrame hseparate
  | drained index coins nonce now => exact h.drained index coins nonce now
  | handled index => exact h.handled index
  | receive frame merkleRoot secretKey =>
    show Apart { s with edge := s.edge.receive frame merkleRoot secretKey }
    unfold EdgeCrypto.receive
    split
    · exact h
    · exact h.evict.enqueue _ nofun nofun
  | retire cacheKey => exact h.enqueue _ nofun nofun
  | resume owner => exact h.headStep (.inl ⟨owner, rfl⟩)
  | written write => exact h.headStep (.inr ⟨write, rfl⟩)

theorem run_apart (events : List Event) (h : Apart s) (hseparate : Throughout L Separate events s) :
    Apart (runAll L events s) := by
  induction events generalizing s with
  | nil => exact h
  | cons event events ih => exact ih (step_apart h hseparate.1) hseparate.2

/-- Along every run of separate events from a live edge a message key is derived only with
the machine idle and no control frame being processed. -/
theorem derives_undisturbed (live : Live) (events : List Event)
    (hseparate : Throughout L Separate events (ofLive live)) (event : Event)
    (hderives : Derives L event (runAll L events (ofLive live))) :
    (runAll L events (ofLive live)).Undisturbed := by
  have hstart : Apart (ofLive live) :=
    ⟨fun _ hcall => (by cases hcall), List.Pairwise.nil, fun _ hcall => (by cases hcall),
      fun _ hsend => (by cases hsend)⟩
  obtain ⟨owner, call, rest, staged, -, hqueue, hphase, hrequest, -⟩ := hderives
  refine (run_apart events hstart hseparate).waiting call ?_ ⟨hrequest, hphase⟩
  rw [hqueue]
  exact List.mem_cons_self

/-! ## A send between its admission and its step -/

open HealingRefinement

/-- A connection that can send, with a runtime whose offer is due. -/
def dueSender : Live := { sender with pq := some dueRuntime }

/-- A send on a calm edge, up to the lock. -/
def calmSend : List Event := [.send false, .gate 0 true, .poll 0 false, .proceed 0]

/-- The ratchet of the sender steps, whatever its runtime. -/
theorem sender_stages {live : Live} (hratchet : live.ratchet = sender.ratchet) :
    ∃ staged, stageEncrypt .transparent live = .ok staged := by
  have hok : (match (ratchetEncrypt .transparent).run (cloneRatchet sender.ratchet) with
      | .ok _ _ => true
      | .error _ _ => false) = true := by decide +kernel
  unfold stageEncrypt
  rw [hratchet]
  cases hrun : (ratchetEncrypt .transparent).run (cloneRatchet sender.ratchet) with
  | error e r =>
    rw [hrun] at hok
    cases hok
  | ok stepped candidate => exact ⟨_, rfl⟩

theorem calmSend_derives : Derives .transparent (.resume true)
    (runAll .transparent calmSend (ofLive dueSender)) := by
  obtain ⟨staged, hstage⟩ := @sender_stages dueSender rfl
  exact ⟨true, ⟨0, .encrypt, .queued⟩, [], staged, rfl, rfl, rfl, rfl, hstage⟩

theorem derives_undisturbed_calm : Derives .transparent (.resume true)
      (runAll .transparent calmSend (ofLive dueSender)) ∧
    (runAll .transparent calmSend (ofLive dueSender)).Undisturbed := by
  have hseparate : Throughout .transparent Separate calmSend (ofLive dueSender) := by
    refine ⟨trivial, ?_, ?_, trivial, trivial⟩
    · rintro send ⟨⟩ - hresumes
      cases hresumes
    · rintro send - - -
      exact ⟨fun call hcall => (by cases hcall), rfl⟩
  exact ⟨calmSend_derives, derives_undisturbed dueSender calmSend hseparate _ calmSend_derives⟩

/-- The offer of a tick has the lock and its clone when the send asks to be admitted; the
offer commits before the send has the lock. -/
def admittedSend : List Event :=
  [.send false, .gate 0 true, .tick PQ_HEAL_AFTER_MS true [] sampleNonce, .resume true,
    .poll 0 false, .proceed 0, .resume true, .resume true, .written .done]

theorem runAll_cons (event : Event) (events : List Event) (s : Admission) :
    runAll L (event :: events) s = runAll L events (step L event s) := rfl

/-- A send is admitted and waits behind a transition that commits. -/
theorem admitted_behind {ratchet : RatchetState} {r candidate : SparsePqHealingState}
    {action : TickAction} {now : Nat} {coins : Bytes} {nonce : Nonce} {dispatch : Option Bytes}
    (hchoice : PqHealingOrchestrator.tickChoice r now false true = .act action)
    (hidle : r.trafficBlocked = false)
    (hclone : ({ r with activeReceiveKeys := .empty } : SparsePqHealingState).clone = .ok r)
    (hmutate : ((tickTransition coins nonce action).mutate L).run r = .ok ⟨dispatch, true⟩ candidate)
    (hserializes : Row.serializes ⟨serializeRatchet ratchet, some candidate⟩ = true)
    (hsame : SameEdge candidate r) (hkeys : candidate.activeReceiveKeys = .empty) :
    runAll L [.send false, .gate 0 true, .tick now true coins nonce, .resume true, .poll 0 false,
        .proceed 0, .resume true, .resume true, .written .done]
        (ofLive ⟨ratchet, some r, [.empty], 0, 0⟩) =
      ⟨replaced ratchet candidate dispatch [⟨1, .encrypt, .queued⟩], [⟨false, .stepping 1⟩], [], some 0,
        false, false⟩ := by
  have htick : step L (.tick now true coins nonce)
        ⟨EdgeCrypto.ofLive ⟨ratchet, some r, [.empty], 0, 0⟩, [⟨false, .polling⟩], [], none, false, false⟩ =
      ⟨(EdgeCrypto.ofLive ⟨ratchet, some r, [.empty], 0, 0⟩).enqueue
          (.transition (tickTransition coins nonce action)), [⟨false, .polling⟩], [], some 0, false, false⟩ := by
    show (match PqHealingOrchestrator.tickChoice r now false true with
      | .nothing => _
      | .exhausted => _
      | .act action => _) = _
    rw [hchoice]
    rfl
  have hbegin : step L (.resume true)
        ⟨(EdgeCrypto.ofLive ⟨ratchet, some r, [.empty], 0, 0⟩).enqueue
          (.transition (tickTransition coins nonce action)), [⟨false, .polling⟩], [], some 0, false, false⟩ =
      ⟨cloned ratchet r (tickTransition coins nonce action) [], [⟨false, .polling⟩], [], some 0, false,
        false⟩ :=
    congrArg (Admission.mk · [⟨false, .polling⟩] [] (some 0) false false) (transition_clones hclone)
  have hpoll : step L (.poll 0 false)
        ⟨cloned ratchet r (tickTransition coins nonce action) [], [⟨false, .polling⟩], [], some 0, false,
          false⟩ =
      ⟨cloned ratchet r (tickTransition coins nonce action) [], [⟨false, .admitted⟩], [], some 0, false,
        false⟩ := by
    show (if r.trafficBlocked = true then _ else _) = _
    rw [hidle]
    rfl
  rw [runAll_cons, runAll_cons, runAll_cons]
  show runAll L _ (step L (.tick now true coins nonce) ⟨EdgeCrypto.ofLive ⟨ratchet, some r, [.empty], 0, 0⟩,
    [⟨false, .polling⟩], [], none, false, false⟩) = _
  rw [htick, runAll_cons, hbegin, runAll_cons, hpoll, runAll_cons]
  exact congrArg (Admission.mk · [⟨false, .stepping 1⟩] [] (some 0) false false)
    (transition_replaces hmutate hserializes hsame hkeys _)

/-- The send derives its key in the middle of the exchange. -/
theorem admitted_send_derives_in_exchange :
    Derives .transparent (.resume true) (runAll .transparent admittedSend (ofLive dueSender)) ∧
      ¬ (runAll .transparent admittedSend (ofLive dueSender)).Undisturbed := by
  obtain ⟨frame, candidate, hoffers, hwf, hkeys, hsame, -, -, hphase⟩ := due_offers
  have hclone : dueRuntime.clone = .ok dueRuntime :=
    SparsePqHealingState.clone_eq (sample_abs .initiator).wf
  have hrow := serializes_of_fits (serializeRatchet sender.ratchet) hwf (hkeys ▸ keysFit_empty)
  have hchoice : PqHealingOrchestrator.tickChoice dueRuntime PQ_HEAL_AFTER_MS false true =
      .act (.offer PQ_HEAL_AFTER_MS) := by
    have hdue : dueRuntime.healingDue PQ_HEAL_AFTER_MS = .ok true := sample_due
    unfold PqHealingOrchestrator.tickChoice
    rw [hdue]
    rfl
  have hrun : runAll .transparent admittedSend (ofLive dueSender) = _ :=
    @admitted_behind .transparent sender.ratchet dueRuntime candidate _ PQ_HEAL_AFTER_MS [] sampleNonce
      (some frame) hchoice rfl hclone hoffers hrow hsame hkeys
  obtain ⟨staged, hstage⟩ :=
    @sender_stages ⟨sender.ratchet, some candidate, [.empty, .empty], 1, 1⟩ rfl
  rw [hrun]
  refine ⟨⟨true, ⟨1, .encrypt, .queued⟩, [], staged, rfl, rfl, rfl, rfl, hstage⟩, ?_⟩
  exact fun hundisturbed => hphase (hundisturbed.1 candidate rfl)

end Admission

end P2Party
