import P2Party.Handshake.Core
import P2Party.Handshake.RatchetGate
import Mathlib.Data.List.Perm.Basic

/-!
# The handshake inbox (`handlers/handleHandshake.ts`)

The frames of a handshake that arrive on the main channel wait in the inbox of their edge until the
handshake asks for them. A reconnect registers a new inbox under the same key; who delivers a frame
or holds a transport of the old one shows the lease it was given, and is turned away.

An inbox is an object that lives on after it has been replaced, as its transport and timers refer
to it: `objects` has them all, in the order of their leases. Of an inbox the model also keeps what
became of its frames and of the calls of `recv`: which call was given which frame, which were
rejected, and whose timers are still set.

- `setHandshakeChannel`, `clearHandshakeChannel`, `deliverHandshakeFrame`, `transportForPeer`,
  `send`, `recv`, `timeout`: the operations;
- `Inbox.Orderly`, `Ok`, `Ok.step`: what holds of an inbox, and of all of them, at any time;
- `Ok.step_of_superseded`: what an operation with a replaced lease leaves alone;
- `lease_safety`: gates and inboxes in any interleaving.
-/

namespace P2Party

open Base

namespace HandshakeInbox

open RatchetGate (gateKey update_some_eq_some)

/-! ## Steps of a handshake -/

/-- `HandshakeStep` (handshakeCore.ts:189). -/
inductive HandshakeStep
  | hello
  | confirm
  | finish
deriving DecidableEq, Repr

/-- `isHandshakePayloadForStep` (handshakeCore.ts:196-206). -/
def isHandshakePayloadForStep (payload : Bytes) (step : HandshakeStep) (pqMode : RoomPqMode) : Bool :=
  match step with
  | .hello => decide (payload.length = Handshake.helloLength (roomPqModeToParameterSet pqMode) ∧
      payload.head? = some Handshake.HS_STEP_HELLO)
  | .confirm => decide (payload.length = Handshake.CONFIRM_LEN ∧
      payload.head? = some Handshake.HS_STEP_CONFIRM)
  | .finish => decide (payload.length = Handshake.FINISH_LEN ∧
      payload.head? = some Handshake.HS_STEP_FINISH)

/-- The steps that a peer receives: the third only as the initiator. -/
def steps (expectFinish : Bool) : List HandshakeStep :=
  [.hello, .confirm] ++ if expectFinish then [.finish] else []

/-- The step after a step (handleHandshake.ts:251-256). -/
def nextStepOf (step : HandshakeStep) (expectFinish : Bool) : Option HandshakeStep :=
  if step = .hello then some .confirm
  else if step = .confirm ∧ expectFinish = true then some .finish
  else none

theorem nextStepOf_steps {expectFinish : Bool} {n : Nat} {step : HandshakeStep}
    (h : (steps expectFinish)[n]? = some step) :
    nextStepOf step expectFinish = (steps expectFinish)[n + 1]? := by
  have hn : n < (steps expectFinish).length := (List.getElem?_eq_some_iff.mp h).1
  have hlength : (steps expectFinish).length ≤ 3 := by cases expectFinish <;> decide
  have hn : n = 0 ∨ n = 1 ∨ n = 2 := by omega
  rcases hn with rfl | rfl | rfl <;> cases expectFinish <;> cases h <;> rfl

/-! ## One inbox -/

/-- `HandshakeLease`. -/
structure HandshakeLease where
  token : Nat
deriving DecidableEq, Repr

/-- `FRAME_TYPE_HANDSHAKE` (constants.ts:55). -/
def FRAME_TYPE_HANDSHAKE : UInt8 := 1

/-- `Inbox` (handleHandshake.ts:166-178), with the key it was registered under. A channel is its
number, a waiter the number of its call of `recv`. -/
structure Inbox where
  key : JsString
  pqMode : RoomPqMode
  expectFinish : Bool
  channel : Nat
  queue : List Bytes
  nextStep : Option HandshakeStep
  waiters : List Nat
  /-- The calls whose timers are set. -/
  timers : List Nat
  /-- How often `recv` has been called. -/
  calls : Nat
  accepted : List Bytes
  /-- The calls that were given a frame, in order. -/
  handed : List (Nat × Bytes)
  /-- The calls whose promise was rejected. -/
  refused : List Nat
deriving DecidableEq, Repr

namespace Inbox

/-- A new inbox (handleHandshake.ts:205-213). -/
def new (key : JsString) (channel : Nat) (pqMode : RoomPqMode) (expectFinish : Bool) : Inbox where
  key := key
  pqMode := pqMode
  expectFinish := expectFinish
  channel := channel
  queue := []
  nextStep := some .hello
  waiters := []
  timers := []
  calls := 0
  accepted := []
  handed := []
  refused := []

/-- `waiter.reject(error)` for every waiter; each clears its timer. -/
def rejectWaiters (inbox : Inbox) : Inbox :=
  { inbox with
    timers := inbox.timers.filter (· ∉ inbox.waiters)
    refused := inbox.refused ++ inbox.waiters }

/-- A frame that fits goes to the first waiter, whose timer it clears, or into the queue
(handleHandshake.ts:251-259). -/
def accept (inbox : Inbox) (step : HandshakeStep) (payload : Bytes) : Inbox :=
  let inbox := { inbox with
    nextStep := nextStepOf step inbox.expectFinish
    accepted := inbox.accepted ++ [payload] }
  match inbox.waiters with
  | next :: waiters =>
    { inbox with
      waiters := waiters
      timers := inbox.timers.erase next
      handed := inbox.handed ++ [(next, payload)] }
  | [] => { inbox with queue := inbox.queue ++ [payload] }

/-- A call of `recv` on an inbox that is no longer registered. -/
def refuse (inbox : Inbox) : Inbox :=
  { inbox with
    calls := inbox.calls + 1
    refused := inbox.refused ++ [inbox.calls] }

/-- A call of `recv` (handleHandshake.ts:294-314). -/
def take (inbox : Inbox) : Inbox :=
  match inbox.queue with
  | frame :: queue =>
    { inbox with
      queue := queue
      calls := inbox.calls + 1
      handed := inbox.handed ++ [(inbox.calls, frame)] }
  | [] =>
    { inbox with
      waiters := inbox.waiters ++ [inbox.calls]
      timers := inbox.timers ++ [inbox.calls]
      calls := inbox.calls + 1 }

/-- The timer of a call fires, if it is set (handleHandshake.ts:307-311). -/
def expire (inbox : Inbox) (waiter : Nat) : Inbox :=
  if waiter ∈ inbox.timers then
    { inbox with
      waiters := inbox.waiters.erase waiter
      timers := inbox.timers.erase waiter
      refused := inbox.refused ++ [waiter] }
  else inbox

/-- What holds of an inbox at any time. -/
structure Orderly (inbox : Inbox) : Prop where
  -- The accepted frames are those handed out, in order, and those still queued.
  accounted : inbox.accepted = inbox.handed.map Prod.snd ++ inbox.queue
  -- Every call of `recv` was given a frame, was rejected or waits, and no two of these.
  answered : (inbox.handed.map Prod.fst ++ inbox.refused ++ inbox.timers).Perm
    (List.range inbox.calls)
  -- Frames are handed to the calls in the order of the calls.
  ordered : (inbox.handed.map Prod.fst ++ inbox.timers).Pairwise (· < ·)
  -- No call waits while there is a frame for it.
  prompt : inbox.timers = [] ∨ inbox.queue = []
  length_le : inbox.accepted.length ≤ (steps inbox.expectFinish).length
  fits : ∀ (n : Nat) step frame, (steps inbox.expectFinish)[n]? = some step →
    inbox.accepted[n]? = some frame → isHandshakePayloadForStep frame step inbox.pqMode = true
  next : inbox.nextStep = (steps inbox.expectFinish)[inbox.accepted.length]?

variable {inbox : Inbox}

theorem orderly_new (key : JsString) (channel : Nat) (pqMode : RoomPqMode) (expectFinish : Bool) :
    (new key channel pqMode expectFinish).Orderly where
  accounted := rfl
  answered := List.Perm.refl _
  ordered := List.Pairwise.nil
  prompt := .inl rfl
  length_le := Nat.zero_le _
  fits _ _ _ _ h := nomatch h
  next := rfl

/-- When the timers set are those of the waiters, rejecting these leaves none. -/
theorem timers_rejectWaiters (h : inbox.timers = inbox.waiters) : inbox.rejectWaiters.timers = [] := by
  simp [rejectWaiters, h]

theorem Orderly.rejectWaiters (h : inbox.Orderly) (harmed : inbox.timers = inbox.waiters) :
    inbox.rejectWaiters.Orderly := by
  have htimers := timers_rejectWaiters harmed
  refine ⟨h.accounted, ?_, ?_, .inl htimers, h.length_le, h.fits, h.next⟩
  · rw [htimers, List.append_nil]
    simpa [Inbox.rejectWaiters, harmed, List.append_assoc] using h.answered
  · rw [htimers, List.append_nil]
    exact (List.pairwise_append.mp h.ordered).1

/-- One more accepted frame that fits its step. -/
theorem Orderly.fits_concat (h : inbox.Orderly) {step : HandshakeStep} {payload : Bytes}
    (hstep : inbox.nextStep = some step)
    (hfits : isHandshakePayloadForStep payload step inbox.pqMode = true) (n : Nat)
    (step' : HandshakeStep) (frame : Bytes) (hn : (steps inbox.expectFinish)[n]? = some step')
    (hframe : (inbox.accepted ++ [payload])[n]? = some frame) :
    isHandshakePayloadForStep frame step' inbox.pqMode = true := by
  by_cases hlast : n < inbox.accepted.length
  · exact h.fits n step' frame hn (by rwa [List.getElem?_append_left hlast] at hframe)
  · have hbound := (List.getElem?_eq_some_iff.mp hframe).1
    simp only [List.length_append, List.length_singleton] at hbound
    have hn' : n = inbox.accepted.length := by omega
    subst hn'
    rw [List.getElem?_concat_length] at hframe
    rw [h.next, hn] at hstep
    obtain rfl := Option.some.inj hframe
    obtain rfl := Option.some.inj hstep
    exact hfits

theorem Orderly.length_concat_le (h : inbox.Orderly) {step : HandshakeStep} (payload : Bytes)
    (hstep : inbox.nextStep = some step) :
    (inbox.accepted ++ [payload]).length ≤ (steps inbox.expectFinish).length := by
  have hlt := (List.getElem?_eq_some_iff.mp (h.next.symm.trans hstep)).1
  simp only [List.length_append, List.length_singleton]
  omega

theorem Orderly.accept (h : inbox.Orderly) (harmed : inbox.timers = inbox.waiters)
    {step : HandshakeStep} {payload : Bytes} (hstep : inbox.nextStep = some step)
    (hfits : isHandshakePayloadForStep payload step inbox.pqMode = true) :
    (inbox.accept step payload).Orderly := by
  have hnext : nextStepOf step inbox.expectFinish =
      (steps inbox.expectFinish)[(inbox.accepted ++ [payload]).length]? := by
    rw [List.length_append]
    exact nextStepOf_steps (h.next.symm.trans hstep)
  have hlength := h.length_concat_le payload hstep
  have hall := h.fits_concat hstep hfits
  unfold Inbox.accept
  cases hwaiters : inbox.waiters with
  | nil =>
    rw [hwaiters] at harmed
    refine ⟨?_, h.answered, h.ordered, .inl harmed, hlength, hall, hnext⟩
    simp only [h.accounted, List.append_assoc]
  | cons waiter waiters =>
    have htimers : inbox.timers = waiter :: waiters := harmed.trans hwaiters
    have hqueue : inbox.queue = [] := by
      rcases h.prompt with hnone | hqueue
      · rw [htimers] at hnone
        cases hnone
      · exact hqueue
    simp only [htimers, List.erase_cons_head]
    refine ⟨?_, ?_, ?_, .inr hqueue, hlength, hall, hnext⟩
    · simp [h.accounted, hqueue]
    · -- The call moves from those that wait to those that were given a frame.
      refine List.Perm.trans ?_ h.answered
      simp only [List.map_append, List.map_cons, List.map_nil, htimers, List.append_assoc,
        List.cons_append, List.nil_append]
      exact List.Perm.append_left _ List.perm_middle.symm
    · have hordered := h.ordered
      rw [htimers] at hordered
      simpa [List.append_assoc] using hordered

theorem Orderly.lt_calls (h : inbox.Orderly) {n : Nat}
    (hn : n ∈ inbox.handed.map Prod.fst ++ inbox.timers) : n < inbox.calls := by
  have hmem : n ∈ inbox.handed.map Prod.fst ++ inbox.refused ++ inbox.timers := by
    rcases List.mem_append.mp hn with hn | hn
    · exact List.mem_append_left _ (List.mem_append_left _ hn)
    · exact List.mem_append_right _ hn
  exact List.mem_range.mp (h.answered.mem_iff.mp hmem)

theorem Orderly.refuse (h : inbox.Orderly) : inbox.refuse.Orderly := by
  refine ⟨h.accounted, ?_, h.ordered, h.prompt, h.length_le, h.fits, h.next⟩
  simp only [Inbox.refuse, List.range_succ]
  refine List.Perm.trans ?_ (h.answered.append_right [inbox.calls])
  simp only [List.append_assoc]
  exact List.Perm.append_left _ (List.Perm.append_left _ List.perm_append_comm)

theorem Orderly.take (h : inbox.Orderly) : inbox.take.Orderly := by
  unfold Inbox.take
  split
  · rename_i frame queue hqueue
    have htimers : inbox.timers = [] := by
      rcases h.prompt with htimers | hnone
      · exact htimers
      · rw [hqueue] at hnone
        cases hnone
    have hanswered := h.answered
    have hordered := h.ordered
    rw [htimers, List.append_nil] at hanswered hordered
    refine ⟨?_, ?_, ?_, .inl htimers, h.length_le, h.fits, h.next⟩
    · simp [h.accounted, hqueue]
    · simp only [htimers, List.append_nil, List.map_append, List.map_cons, List.map_nil,
        List.range_succ]
      refine List.Perm.trans ?_ (hanswered.append_right [inbox.calls])
      simp only [List.append_assoc]
      exact List.Perm.append_left _ List.perm_append_comm
    · simp only [htimers, List.append_nil, List.map_append, List.map_cons, List.map_nil]
      refine List.pairwise_append.mpr ⟨hordered, List.pairwise_singleton .., ?_⟩
      intro n hn m hm
      rw [List.mem_singleton.mp hm]
      exact h.lt_calls (List.mem_append_left _ hn)
  · rename_i hqueue
    refine ⟨h.accounted, ?_, ?_, .inr hqueue, h.length_le, h.fits, h.next⟩
    · simp only [List.range_succ, ← List.append_assoc]
      exact h.answered.append_right [inbox.calls]
    · simp only [← List.append_assoc]
      refine List.pairwise_append.mpr ⟨h.ordered, List.pairwise_singleton .., ?_⟩
      intro n hn m hm
      rw [List.mem_singleton.mp hm]
      exact h.lt_calls hn

theorem Orderly.expire (h : inbox.Orderly) (waiter : Nat) : (inbox.expire waiter).Orderly := by
  unfold Inbox.expire
  split
  · rename_i hmem
    refine ⟨h.accounted, ?_, ?_, ?_, h.length_le, h.fits, h.next⟩
    · refine List.Perm.trans ?_ h.answered
      simp only [List.append_assoc, List.singleton_append]
      exact List.Perm.append_left _ (List.Perm.append_left _ (List.perm_cons_erase hmem).symm)
    · exact h.ordered.sublist (List.Sublist.append_left List.erase_sublist _)
    · rcases h.prompt with htimers | hqueue
      · rw [htimers] at hmem
        cases hmem
      · exact .inr hqueue
  · exact h

end Inbox

/-! ## All inboxes -/

/-- The map of inboxes, all inboxes there have been, the transports made and what was sent. -/
structure Inboxes where
  inboxes : JsString → Option HandshakeLease
  objects : List Inbox
  transports : List (JsString × HandshakeLease)
  sends : List (Nat × Bytes)

/-- The module as it is loaded. -/
def initial : Inboxes := ⟨fun _ => none, [], [], []⟩

/-- An inbox changes. -/
def Inboxes.modify (s : Inboxes) (lease : HandshakeLease) (f : Inbox → Inbox) : Inboxes :=
  { s with objects := s.objects.modify lease.token f }

/-- `setHandshakeChannel` (handleHandshake.ts:191-215). -/
def setHandshakeChannel (s : Inboxes) (key : JsString) (channel : Nat) (pqMode : RoomPqMode)
    (expectFinish : Bool) : HandshakeLease × Inboxes :=
  let s := match s.inboxes key with
    | some previous => s.modify previous Inbox.rejectWaiters
    | none => s
  let lease : HandshakeLease := ⟨s.objects.length⟩
  (lease, { s with
    inboxes := Function.update s.inboxes key (some lease)
    objects := s.objects ++ [Inbox.new key channel pqMode expectFinish] })

/-- An inbox is unregistered and its waiters are rejected. -/
def unregister (s : Inboxes) (key : JsString) (lease : HandshakeLease) : Inboxes :=
  { s.modify lease Inbox.rejectWaiters with inboxes := Function.update s.inboxes key none }

/-- `clearHandshakeChannel` (handleHandshake.ts:217-229). -/
def clearHandshakeChannel (s : Inboxes) (key : JsString) (lease : Option HandshakeLease) :
    Bool × Inboxes :=
  match s.inboxes key with
  | none => (false, s)
  | some current =>
    if lease.any (fun lease => current ≠ lease) then (false, s)
    else (true, unregister s key current)

/-- `deliverHandshakeFrame` (handleHandshake.ts:231-261). -/
def deliverHandshakeFrame (s : Inboxes) (key : JsString) (payload : Bytes) (lease : HandshakeLease) :
    Bool × Inboxes :=
  if s.inboxes key ≠ some lease then (false, s)
  else
    match s.objects[lease.token]? with
    | none => (false, s)
    | some inbox =>
      match inbox.nextStep with
      | none => (false, (clearHandshakeChannel s key (some lease)).2)
      | some step =>
        if isHandshakePayloadForStep payload step inbox.pqMode = true then
          (true, s.modify lease fun inbox => inbox.accept step payload)
        else (false, (clearHandshakeChannel s key (some lease)).2)

/-- `transportForPeer` (handleHandshake.ts:263-275), false where it throws. -/
def transportForPeer (s : Inboxes) (key : JsString) (lease : HandshakeLease) : Bool × Inboxes :=
  if s.inboxes key = some lease then
    (true, { s with transports := s.transports ++ [(key, lease)] })
  else (false, s)

/-- `send` of a transport (handleHandshake.ts:277-289), false where it throws. -/
def send (s : Inboxes) (key : JsString) (lease : HandshakeLease) (bytes : Bytes) : Bool × Inboxes :=
  if s.inboxes key = some lease then
    match s.objects[lease.token]? with
    | some inbox =>
      (true, { s with sends := s.sends ++ [(inbox.channel, FRAME_TYPE_HANDSHAKE :: bytes)] })
    | none => (false, s)
  else (false, s)

/-- `recv` of a transport (handleHandshake.ts:290-316). -/
def recv (s : Inboxes) (key : JsString) (lease : HandshakeLease) : Inboxes :=
  if s.inboxes key = some lease then s.modify lease Inbox.take else s.modify lease Inbox.refuse

/-- A call of the module or of a transport it made, or the timer of a call of `recv`. -/
inductive Event
  | setHandshakeChannel (roomId peerId : JsString) (channel : Nat) (pqMode : RoomPqMode)
      (expectFinish : Bool)
  | clearHandshakeChannel (roomId peerId : JsString) (lease : Option HandshakeLease)
  | deliverHandshakeFrame (roomId peerId : JsString) (payload : Bytes) (lease : HandshakeLease)
  | transportForPeer (roomId peerId : JsString) (lease : HandshakeLease)
  | send (roomId peerId : JsString) (lease : HandshakeLease) (bytes : Bytes)
  | recv (roomId peerId : JsString) (lease : HandshakeLease)
  | timeout (roomId peerId : JsString) (lease : HandshakeLease) (waiter : Nat)
deriving DecidableEq

/-- What happens on an event. A transport can be used once it has been made. -/
def step : Event → Inboxes → Inboxes
  | .setHandshakeChannel roomId peerId channel pqMode expectFinish, s =>
    (setHandshakeChannel s (gateKey roomId peerId) channel pqMode expectFinish).2
  | .clearHandshakeChannel roomId peerId lease, s =>
    (clearHandshakeChannel s (gateKey roomId peerId) lease).2
  | .deliverHandshakeFrame roomId peerId payload lease, s =>
    (deliverHandshakeFrame s (gateKey roomId peerId) payload lease).2
  | .transportForPeer roomId peerId lease, s => (transportForPeer s (gateKey roomId peerId) lease).2
  | .send roomId peerId lease bytes, s =>
    if (gateKey roomId peerId, lease) ∈ s.transports then
      (send s (gateKey roomId peerId) lease bytes).2
    else s
  | .recv roomId peerId lease, s =>
    if (gateKey roomId peerId, lease) ∈ s.transports then recv s (gateKey roomId peerId) lease else s
  | .timeout roomId peerId lease waiter, s =>
    if (gateKey roomId peerId, lease) ∈ s.transports then s.modify lease (Inbox.expire · waiter) else s

/-- The lease an event carries, and the key it carries it to. -/
def Event.carried : Event → Option (JsString × HandshakeLease)
  | .setHandshakeChannel .. => none
  | .clearHandshakeChannel roomId peerId lease => lease.map fun lease => (gateKey roomId peerId, lease)
  | .deliverHandshakeFrame roomId peerId _ lease => some (gateKey roomId peerId, lease)
  | .transportForPeer roomId peerId lease => some (gateKey roomId peerId, lease)
  | .send roomId peerId lease _ => some (gateKey roomId peerId, lease)
  | .recv roomId peerId lease => some (gateKey roomId peerId, lease)
  | .timeout roomId peerId lease _ => some (gateKey roomId peerId, lease)

/-- The timers set are those of the waiters while the inbox is registered, and none after. -/
def Armed (s : Inboxes) (n : Nat) (inbox : Inbox) : Prop :=
  inbox.timers = if s.inboxes inbox.key = some ⟨n⟩ then inbox.waiters else []

/-- What holds of the inboxes at any time. -/
structure Ok (s : Inboxes) : Prop where
  orderly : ∀ inbox ∈ s.objects, inbox.Orderly
  armed : ∀ n inbox, s.objects[n]? = some inbox → Armed s n inbox
  registered : ∀ key lease, s.inboxes key = some lease →
    ∃ inbox, s.objects[lease.token]? = some inbox ∧ inbox.key = key

variable {s : Inboxes} {key : JsString} {lease : HandshakeLease} {inbox : Inbox}

theorem ok_initial : Ok initial where
  orderly _ h := nomatch h
  armed _ _ h := nomatch h
  registered _ _ h := nomatch h

theorem getElem?_objects_modify {f : Inbox → Inbox} {n : Nat}
    (h : (s.modify lease f).objects[n]? = some inbox) :
    ∃ before, s.objects[n]? = some before ∧
      (n = lease.token ∧ inbox = f before ∨ n ≠ lease.token ∧ inbox = before) := by
  simp only [Inboxes.modify, List.getElem?_modify, Option.map_eq_map, Option.map_eq_some_iff] at h
  obtain ⟨before, hbefore, hinbox⟩ := h
  refine ⟨before, hbefore, ?_⟩
  by_cases hn : lease.token = n
  · rw [if_pos hn] at hinbox
    exact .inl ⟨hn.symm, hinbox.symm⟩
  · rw [if_neg hn] at hinbox
    exact .inr ⟨Ne.symm hn, hinbox.symm⟩

/-- Under a change that leaves the keys alone, the registered inboxes stay what they are. -/
theorem Ok.registered_modify (h : Ok s) {f : Inbox → Inbox} (hkey : ∀ inbox, (f inbox).key = inbox.key)
    {k : JsString} {l : HandshakeLease} (hl : s.inboxes k = some l) :
    ∃ inbox, (s.modify lease f).objects[l.token]? = some inbox ∧ inbox.key = k := by
  obtain ⟨inbox, hinbox, hk⟩ := h.registered k l hl
  simp only [Inboxes.modify, List.getElem?_modify, hinbox]
  by_cases hn : lease.token = l.token
  · exact ⟨f inbox, by simp [hn], (hkey inbox).trans hk⟩
  · exact ⟨inbox, by simp [hn], hk⟩

/-- An inbox changes in a way that keeps its order and its timers. -/
theorem Ok.modify (h : Ok s) {f : Inbox → Inbox} (hkey : ∀ inbox, (f inbox).key = inbox.key)
    (horderly : ∀ inbox, s.objects[lease.token]? = some inbox → (f inbox).Orderly)
    (harmed : ∀ inbox, s.objects[lease.token]? = some inbox → Armed s lease.token (f inbox)) :
    Ok (s.modify lease f) where
  orderly inbox hmem := by
    obtain ⟨n, hn⟩ := List.getElem?_of_mem hmem
    obtain ⟨before, hbefore, ⟨rfl, rfl⟩ | ⟨-, rfl⟩⟩ := getElem?_objects_modify hn
    · exact horderly before hbefore
    · exact h.orderly _ (List.mem_of_getElem? hbefore)
  armed n inbox hn := by
    obtain ⟨before, hbefore, ⟨rfl, rfl⟩ | ⟨-, rfl⟩⟩ := getElem?_objects_modify hn
    · exact harmed before hbefore
    · exact h.armed n _ hbefore
  registered k l hl := h.registered_modify hkey hl

/-- The timers of a registered inbox are those of its waiters. -/
theorem Ok.timers_eq (h : Ok s) (hkey : s.inboxes key = some lease)
    (hinbox : s.objects[lease.token]? = some inbox) : inbox.timers = inbox.waiters := by
  obtain ⟨inbox', hinbox', hk⟩ := h.registered key lease hkey
  obtain rfl := Option.some.inj (hinbox.symm.trans hinbox')
  have harmed := h.armed lease.token inbox hinbox
  rwa [Armed, hk, hkey, if_pos rfl] at harmed

@[simp] theorem inboxes_modify (f : Inbox → Inbox) : (s.modify lease f).inboxes = s.inboxes := rfl

@[simp] theorem inboxes_unregister_self : (unregister s key lease).inboxes key = none :=
  Function.update_self ..

theorem inboxes_unregister_of_ne {k : JsString} (h : k ≠ key) :
    (unregister s key lease).inboxes k = s.inboxes k :=
  Function.update_of_ne h ..

/-- `setHandshakeChannel` and `clearHandshakeChannel` reject the waiters of the registered inbox. -/
theorem Ok.unregister (h : Ok s) (hkey : s.inboxes key = some lease) :
    Ok (unregister s key lease) where
  orderly inbox hmem := by
    obtain ⟨n, hn⟩ := List.getElem?_of_mem hmem
    obtain ⟨before, hbefore, ⟨rfl, rfl⟩ | ⟨-, rfl⟩⟩ := getElem?_objects_modify hn
    · exact (h.orderly before (List.mem_of_getElem? hbefore)).rejectWaiters (h.timers_eq hkey hbefore)
    · exact h.orderly _ (List.mem_of_getElem? hbefore)
  armed n inbox hn := by
    obtain ⟨before, hbefore, ⟨rfl, rfl⟩ | ⟨hne, rfl⟩⟩ := getElem?_objects_modify hn
    · have htimers := Inbox.timers_rejectWaiters (h.timers_eq hkey hbefore)
      obtain ⟨before', hbefore', hk⟩ := h.registered key lease hkey
      obtain rfl := Option.some.inj (hbefore.symm.trans hbefore')
      have hnone : (HandshakeInbox.unregister s key lease).inboxes before.rejectWaiters.key = none := by
        simp only [HandshakeInbox.unregister, Inbox.rejectWaiters, hk, Function.update_self]
      rw [Armed, hnone, if_neg nofun]
      exact htimers
    · -- Another inbox under this key was not registered before either.
      have harmed := h.armed n _ hbefore
      unfold Armed at harmed ⊢
      by_cases hk : inbox.key = key
      · have hlease : lease ≠ ⟨n⟩ := by
          rintro rfl
          exact hne rfl
        rw [hk, hkey, if_neg (by simpa using hlease)] at harmed
        rw [hk, inboxes_unregister_self, if_neg nofun]
        exact harmed
      · rwa [inboxes_unregister_of_ne hk]
  registered k l hl := by
    by_cases hk : k = key
    · subst hk
      rw [inboxes_unregister_self] at hl
      cases hl
    · rw [inboxes_unregister_of_ne hk] at hl
      exact h.registered_modify (f := Inbox.rejectWaiters) (fun _ => rfl) hl

/-- A new inbox under a key that has none. -/
theorem Ok.register (h : Ok s) (hkey : s.inboxes key = none) (channel : Nat) (pqMode : RoomPqMode)
    (expectFinish : Bool) :
    Ok { s with
      inboxes := Function.update s.inboxes key (some ⟨s.objects.length⟩)
      objects := s.objects ++ [Inbox.new key channel pqMode expectFinish] } where
  orderly inbox hmem := by
    rcases List.mem_append.mp hmem with hmem | hmem
    · exact h.orderly inbox hmem
    · rw [List.mem_singleton.mp hmem]
      exact Inbox.orderly_new ..
  armed n inbox hn := by
    by_cases hlast : n < s.objects.length
    · rw [List.getElem?_append_left hlast] at hn
      have harmed := h.armed n inbox hn
      unfold Armed at harmed ⊢
      by_cases hk : inbox.key = key
      · rw [hk, hkey, if_neg nofun] at harmed
        have hne : ¬(some (⟨s.objects.length⟩ : HandshakeLease) = some ⟨n⟩) := by
          simp only [Option.some.injEq, HandshakeLease.mk.injEq]
          omega
        simpa only [hk, Function.update_self, if_neg hne] using harmed
      · simpa only [Function.update_of_ne hk] using harmed
    · have hbound := (List.getElem?_eq_some_iff.mp hn).1
      simp only [List.length_append, List.length_singleton] at hbound
      have hn' : n = s.objects.length := by omega
      subst hn'
      rw [List.getElem?_concat_length] at hn
      obtain rfl := Option.some.inj hn
      exact (ite_self _).symm
  registered k l hl := by
    rcases update_some_eq_some hl with ⟨rfl, rfl⟩ | ⟨hne, hl⟩
    · exact ⟨_, List.getElem?_concat_length, rfl⟩
    · obtain ⟨inbox, hinbox, hk⟩ := h.registered k l hl
      exact ⟨inbox, (List.getElem?_append_left (List.getElem?_eq_some_iff.mp hinbox).1).trans hinbox, hk⟩

theorem Ok.setHandshakeChannel (h : Ok s) (key : JsString) (channel : Nat) (pqMode : RoomPqMode)
    (expectFinish : Bool) : Ok (setHandshakeChannel s key channel pqMode expectFinish).2 := by
  unfold HandshakeInbox.setHandshakeChannel
  cases hkey : s.inboxes key with
  | none => exact h.register hkey channel pqMode expectFinish
  | some previous =>
    have hok := (h.unregister hkey).register inboxes_unregister_self channel pqMode expectFinish
    simpa only [HandshakeInbox.unregister, Function.update_idem, inboxes_modify] using hok

theorem Ok.clearHandshakeChannel (h : Ok s) (key : JsString) (lease : Option HandshakeLease) :
    Ok (clearHandshakeChannel s key lease).2 := by
  unfold HandshakeInbox.clearHandshakeChannel
  split
  · exact h
  · rename_i current hkey
    split
    · exact h
    · exact h.unregister hkey

/-- A registered inbox changes in a way that keeps its order and its timers. -/
theorem Ok.modify_registered (h : Ok s) (hkey : s.inboxes key = some lease) {f : Inbox → Inbox}
    (hf : ∀ inbox, (f inbox).key = inbox.key)
    (horderly : ∀ inbox, s.objects[lease.token]? = some inbox → inbox.Orderly →
      inbox.timers = inbox.waiters → (f inbox).Orderly ∧ (f inbox).timers = (f inbox).waiters) :
    Ok (s.modify lease f) := by
  have hboth : ∀ inbox, s.objects[lease.token]? = some inbox →
      (f inbox).Orderly ∧ (f inbox).timers = (f inbox).waiters := fun inbox hinbox =>
    horderly inbox hinbox (h.orderly inbox (List.mem_of_getElem? hinbox)) (h.timers_eq hkey hinbox)
  refine h.modify hf (fun inbox hinbox => (hboth inbox hinbox).1) ?_
  intro inbox hinbox
  obtain ⟨inbox', hinbox', hk⟩ := h.registered key lease hkey
  obtain rfl := Option.some.inj (hinbox.symm.trans hinbox')
  rw [Armed, hf, hk, hkey, if_pos rfl]
  exact (hboth inbox hinbox).2

namespace Inbox

theorem key_accept (inbox : Inbox) (step : HandshakeStep) (payload : Bytes) :
    (inbox.accept step payload).key = inbox.key := by
  simp only [accept]
  split <;> rfl

theorem key_take (inbox : Inbox) : inbox.take.key = inbox.key := by
  unfold take
  split <;> rfl

theorem key_expire (inbox : Inbox) (waiter : Nat) : (inbox.expire waiter).key = inbox.key := by
  unfold expire
  split <;> rfl

theorem timers_accept (h : inbox.timers = inbox.waiters) (step : HandshakeStep) (payload : Bytes) :
    (inbox.accept step payload).timers = (inbox.accept step payload).waiters := by
  unfold accept
  cases hwaiters : inbox.waiters with
  | nil => exact h.trans hwaiters
  | cons waiter waiters => simp only [h, hwaiters, List.erase_cons_head]

theorem timers_take (h : inbox.timers = inbox.waiters) : inbox.take.timers = inbox.take.waiters := by
  unfold take
  split
  · exact h
  · simp only [h]

theorem timers_expire (h : inbox.timers = inbox.waiters) (waiter : Nat) :
    (inbox.expire waiter).timers = (inbox.expire waiter).waiters := by
  unfold expire
  split
  · simp only [h]
  · exact h

end Inbox

theorem Ok.deliverHandshakeFrame (h : Ok s) (key : JsString) (payload : Bytes)
    (lease : HandshakeLease) : Ok (deliverHandshakeFrame s key payload lease).2 := by
  unfold HandshakeInbox.deliverHandshakeFrame
  split
  · exact h
  · rename_i hkey
    have hkey : s.inboxes key = some lease := not_not.mp hkey
    split
    · exact h
    · rename_i inbox hinbox
      split
      · exact h.clearHandshakeChannel key (some lease)
      · rename_i step hstep
        split
        · rename_i hfits
          refine h.modify_registered hkey (fun inbox => inbox.key_accept step payload) ?_
          intro inbox' hinbox' horderly harmed
          obtain rfl := Option.some.inj (hinbox.symm.trans hinbox')
          exact ⟨horderly.accept harmed hstep hfits, Inbox.timers_accept harmed step payload⟩
        · exact h.clearHandshakeChannel key (some lease)

theorem Ok.recv (h : Ok s) (key : JsString) (lease : HandshakeLease) : Ok (recv s key lease) := by
  unfold HandshakeInbox.recv
  split
  · rename_i hkey
    refine h.modify_registered hkey Inbox.key_take ?_
    intro inbox _ horderly harmed
    exact ⟨horderly.take, Inbox.timers_take harmed⟩
  · refine h.modify (fun _ => rfl) ?_ ?_
    · intro inbox hinbox
      exact (h.orderly inbox (List.mem_of_getElem? hinbox)).refuse
    · intro inbox hinbox
      exact h.armed lease.token inbox hinbox

/-- What a registered inbox has queued goes to the next call. -/
theorem recv_queued (hkey : s.inboxes key = some lease) (hinbox : s.objects[lease.token]? = some inbox)
    {frame : Bytes} {queue : List Bytes} (hqueue : inbox.queue = frame :: queue) :
    ((recv s key lease).objects[lease.token]?).map Inbox.handed =
      some (inbox.handed ++ [(inbox.calls, frame)]) := by
  simp only [recv, if_pos hkey, Inboxes.modify, List.getElem?_modify, hinbox, if_true, Option.map_eq_map,
    Option.map_some, Inbox.take, hqueue]

theorem Ok.timeout (h : Ok s) (lease : HandshakeLease) (waiter : Nat) :
    Ok (s.modify lease (Inbox.expire · waiter)) := by
  refine h.modify (fun inbox => inbox.key_expire waiter) ?_ ?_
  · intro inbox hinbox
    exact (h.orderly inbox (List.mem_of_getElem? hinbox)).expire waiter
  · intro inbox hinbox
    have harmed := h.armed lease.token inbox hinbox
    unfold Armed at harmed ⊢
    rw [Inbox.key_expire]
    split at harmed
    · rename_i hcurrent
      rw [if_pos hcurrent]
      exact Inbox.timers_expire harmed waiter
    · -- No timer of an inbox that was replaced is set.
      rename_i hcurrent
      rw [if_neg hcurrent, Inbox.expire, if_neg (by simp [harmed])]
      exact harmed

theorem Ok.step (event : Event) (h : Ok s) : Ok (step event s) := by
  cases event with
  | setHandshakeChannel roomId peerId channel pqMode expectFinish =>
    exact h.setHandshakeChannel _ channel pqMode expectFinish
  | clearHandshakeChannel roomId peerId lease => exact h.clearHandshakeChannel _ lease
  | deliverHandshakeFrame roomId peerId payload lease => exact h.deliverHandshakeFrame _ payload lease
  | transportForPeer roomId peerId lease =>
    simp only [HandshakeInbox.step, HandshakeInbox.transportForPeer]
    split
    · exact ⟨h.orderly, h.armed, h.registered⟩
    · exact h
  | send roomId peerId lease bytes =>
    simp only [HandshakeInbox.step, HandshakeInbox.send]
    split
    · split
      · split
        · exact ⟨h.orderly, h.armed, h.registered⟩
        · exact h
      · exact h
    · exact h
  | recv roomId peerId lease =>
    simp only [HandshakeInbox.step]
    split
    · exact h.recv _ lease
    · exact h
  | timeout roomId peerId lease waiter =>
    simp only [HandshakeInbox.step]
    split
    · exact h.timeout lease waiter
    · exact h

/-! ## Replaced leases -/

/-- A lease whose inbox was registered under the key and no longer is. -/
def Superseded (s : Inboxes) (key : JsString) (lease : HandshakeLease) : Prop :=
  (∃ inbox, s.objects[lease.token]? = some inbox ∧ inbox.key = key) ∧ s.inboxes key ≠ some lease

/-- What an inbox has been given and has given out. -/
def Inbox.traffic (inbox : Inbox) : List Bytes × List (Nat × Bytes) × List Bytes :=
  (inbox.accepted, inbox.handed, inbox.queue)

/-- Every registered inbox stays as it is, nothing is sent, and no frame comes or goes. -/
structure Unaffected (s s' : Inboxes) : Prop where
  inboxes : s'.inboxes = s.inboxes
  registered : ∀ key lease, s.inboxes key = some lease →
    s'.objects[lease.token]? = s.objects[lease.token]?
  sends : s'.sends = s.sends
  traffic : s'.objects.map Inbox.traffic = s.objects.map Inbox.traffic

theorem Unaffected.refl (s : Inboxes) : Unaffected s s := ⟨rfl, fun _ _ _ => rfl, rfl, rfl⟩

/-- A replaced lease is registered nowhere else. -/
theorem Ok.not_registered (h : Ok s) (hlease : Superseded s key lease) {k : JsString}
    {l : HandshakeLease} (hl : s.inboxes k = some l) : lease.token ≠ l.token := by
  intro heq
  obtain ⟨⟨inbox, hinbox, hkey⟩, hcurrent⟩ := hlease
  obtain ⟨inbox', hinbox', hk⟩ := h.registered k l hl
  rw [← heq, hinbox] at hinbox'
  obtain rfl := Option.some.inj hinbox'
  have hlease : lease = l := congrArg HandshakeLease.mk heq
  rw [← hkey, hk, hlease] at hcurrent
  exact hcurrent hl

/-- An inbox that was replaced changes, but not in its frames. -/
theorem Ok.unaffected_modify (h : Ok s) (hlease : Superseded s key lease) {f : Inbox → Inbox}
    (hf : ∀ inbox, (f inbox).traffic = inbox.traffic) : Unaffected s (s.modify lease f) where
  inboxes := rfl
  registered k l hl := by
    simp only [Inboxes.modify, List.getElem?_modify, if_neg (h.not_registered hlease hl)]
    exact Option.map_id'
  sends := rfl
  traffic := by
    apply List.ext_getElem?
    intro n
    simp only [Inboxes.modify, List.getElem?_map, List.getElem?_modify, Option.map_map, Option.map_eq_map]
    congr 1
    funext inbox
    by_cases hn : lease.token = n
    · simp only [Function.comp_apply, if_pos hn, hf]
    · simp only [Function.comp_apply, if_neg hn]

theorem Inbox.traffic_expire (inbox : Inbox) (waiter : Nat) :
    (inbox.expire waiter).traffic = inbox.traffic := by
  unfold expire
  split <;> rfl

/-- An operation with a replaced lease affects nothing. -/
theorem Ok.step_of_superseded (h : Ok s) {event : Event} (hcarried : event.carried = some (key, lease))
    (hlease : Superseded s key lease) : Unaffected s (HandshakeInbox.step event s) := by
  have hcurrent : s.inboxes key ≠ some lease := hlease.2
  cases event with
  | setHandshakeChannel roomId peerId channel pqMode expectFinish => cases hcarried
  | clearHandshakeChannel roomId peerId l =>
    cases l with
    | none => cases hcarried
    | some l =>
      cases hcarried
      simp only [HandshakeInbox.step, HandshakeInbox.clearHandshakeChannel]
      split
      · exact .refl s
      · rename_i current hkey
        rw [hkey] at hcurrent
        have hne : current ≠ lease := fun heq => hcurrent (congrArg some heq)
        rw [if_pos (by simpa using hne)]
        exact .refl s
  | deliverHandshakeFrame roomId peerId payload l =>
    cases hcarried
    simp only [HandshakeInbox.step, HandshakeInbox.deliverHandshakeFrame, if_pos hcurrent]
    exact .refl s
  | transportForPeer roomId peerId l =>
    cases hcarried
    simp only [HandshakeInbox.step, HandshakeInbox.transportForPeer, if_neg hcurrent]
    exact .refl s
  | send roomId peerId l bytes =>
    cases hcarried
    simp only [HandshakeInbox.step, HandshakeInbox.send, if_neg hcurrent, ite_self]
    exact .refl s
  | recv roomId peerId l =>
    cases hcarried
    simp only [HandshakeInbox.step, HandshakeInbox.recv, if_neg hcurrent]
    split
    · exact h.unaffected_modify hlease fun _ => rfl
    · exact .refl s
  | timeout roomId peerId l waiter =>
    cases hcarried
    simp only [HandshakeInbox.step]
    split
    · exact h.unaffected_modify hlease fun inbox => inbox.traffic_expire waiter
    · exact .refl s

end HandshakeInbox

/-! ## Gates and inboxes together -/

namespace Leases

/-- Both modules. -/
structure State where
  gates : RatchetGate.Gates
  inboxes : HandshakeInbox.Inboxes

/-- A call of either. -/
inductive Event
  | gate (event : RatchetGate.Event)
  | inbox (event : HandshakeInbox.Event)
deriving DecidableEq

def initial : State := ⟨RatchetGate.initial, HandshakeInbox.initial⟩

def step : Event → State → State
  | .gate event, s => { s with gates := RatchetGate.step event s.gates }
  | .inbox event, s => { s with inboxes := HandshakeInbox.step event s.inboxes }

/-- What holds of both at any time. -/
def Ok (s : State) : Prop := RatchetGate.Ok s.gates ∧ HandshakeInbox.Ok s.inboxes

theorem ok_runs (events : List Event) : Ok (runs step events initial) := by
  induction events using List.reverseRecOn with
  | nil => exact ⟨RatchetGate.ok_initial, HandshakeInbox.ok_initial⟩
  | append_singleton events event ih =>
    rw [runs_append]
    cases event with
    | gate event => exact ⟨ih.1.step event, ih.2⟩
    | inbox event => exact ⟨ih.1, ih.2.step event⟩

/-- **Leases are safe.** In any interleaving of calls, the outcome of a gate is set at most once for
its lease, and what a gate shows is what was set; a call that carries a lease which was replaced
leaves all gates as they are, and, to the inboxes, leaves the registered ones as they are, sends
nothing and moves no frame; every inbox hands its frames out in order, each to one call; and what a
registered one has queued goes to the next call. -/
theorem lease_safety (events : List Event) :
    let s := runs step events initial
    (s.gates.settlements.map Prod.fst).Nodup ∧
    (∀ key gate, s.gates.gates key = some gate → gate.Recorded s.gates.settlements) ∧
    (∀ (event : RatchetGate.Event) key lease, event.carried = some (key, lease) →
      RatchetGate.Superseded s.gates key lease → step (.gate event) s = s) ∧
    (∀ (event : HandshakeInbox.Event) key lease, event.carried = some (key, lease) →
      HandshakeInbox.Superseded s.inboxes key lease → (step (.inbox event) s).gates = s.gates ∧
        HandshakeInbox.Unaffected s.inboxes (step (.inbox event) s).inboxes) ∧
    (∀ inbox ∈ s.inboxes.objects, inbox.Orderly) ∧
    ∀ key lease inbox frame queue, s.inboxes.inboxes key = some lease →
      s.inboxes.objects[lease.token]? = some inbox → inbox.queue = frame :: queue →
      ((HandshakeInbox.recv s.inboxes key lease).objects[lease.token]?).map HandshakeInbox.Inbox.handed =
        some (inbox.handed ++ [(inbox.calls, frame)]) := by
  intro s
  obtain ⟨hgates, hinboxes⟩ : Ok s := ok_runs events
  refine ⟨hgates.once, hgates.recorded, ?_, ?_, hinboxes.orderly, ?_⟩
  · intro event key lease hcarried hlease
    have hstep := hgates.step_of_superseded hcarried hlease
    simp only [step, hstep]
  · intro event key lease hcarried hlease
    exact ⟨rfl, hinboxes.step_of_superseded hcarried hlease⟩
  · intro key lease inbox frame queue hkey hinbox hqueue
    exact HandshakeInbox.recv_queued hkey hinbox hqueue

end Leases

end P2Party
