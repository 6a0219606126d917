import Mathlib
import P2Party.Base.Runs
import P2Party.Messages.MessageChunk

/-!
# What a transfer seals with (`handlers/handleSendMessage.ts`)

One call of `ratchetEncryptDurably` gives a transfer its message key, its header and its PQ
context; the transfer keeps them through every pass, and a resume on a replacement connection
steps the new ratchet and takes all three from there. The awaits of `sendWithReconcile` are
the events. Keys and roots are buffers that `fill(0)` empties in place, so a variable names
the call whose buffer it holds.

The resume hands `bindTransferCipherToConnection` an object without the context: on the same
connection the context comes back undefined and the next pass seals without it, and on a
replacement the old root is not there to be wiped.

- `StepCall`, `TransferCipher`, `Reconcile`: the calls with their buffers, and the loop;
- `Event`, `step`: the awaits;
- `Unbroken`: no context is held when a resume binds;
- `resume_together`: then frames keep to one call and what is superseded is wiped.
-/

namespace P2Party

open Base PqHealing

namespace Reconcile

/-! ## Buffers -/

/-- An `RTCPeerConnection`. -/
abbrev Connection := Nat

/-- `MAX_RETRANSMITS` (constants.ts:185). -/
abbrev MAX_RETRANSMITS : Nat := 5

/-- `MAX_RESUME_ATTEMPTS` (constants.ts:204). -/
abbrev MAX_RESUME_ATTEMPTS : Nat := 3

/-- What `ratchetEncryptDurably` returns. -/
structure Stepped where
  messageKey : Bytes
  header : RatchetHeader
  pqContext : Option PqMessageKeyContext
deriving DecidableEq

/-- A call that has returned, on which connection, and what its two buffers hold now. -/
structure StepCall where
  epc : Connection
  returned : Stepped
  messageKey : Bytes
  rootKey : Bytes
deriving DecidableEq

/-- The buffers of a call as it returns. -/
def StepCall.fresh (epc : Connection) (stepped : Stepped) : StepCall :=
  ⟨epc, stepped, stepped.messageKey, (stepped.pqContext.map (·.rootKey)).getD []⟩

/-- `messageKey.fill(0)`. -/
def StepCall.fillKey (call : StepCall) : StepCall :=
  { call with messageKey := List.replicate call.messageKey.length 0 }

/-- `pqContext.rootKey.fill(0)`. -/
def StepCall.fillRoot (call : StepCall) : StepCall :=
  { call with rootKey := List.replicate call.rootKey.length 0 }

/-- The context with what its root holds now. -/
def StepCall.context (call : StepCall) : Option PqMessageKeyContext :=
  call.returned.pqContext.map fun context => { context with rootKey := call.rootKey }

/-- `TransferCipher` (handleSendMessage.ts:404-414): the key and the context name the call
whose buffers they are. -/
structure TransferCipher where
  epc : Connection
  messageKey : Nat
  header : RatchetHeader
  pqContext : Option Nat
deriving DecidableEq

/-- A sealed frame: the connection of its channel, and what it was sealed with. -/
structure SealedFrame where
  epc : Connection
  messageKey : Bytes
  header : RatchetHeader
  pqContext : Option PqMessageKeyContext
deriving DecidableEq

/-! ## The loop -/

/-- What `sendWithReconcile` awaits. A rebind holds the transfer it was given. -/
inductive Phase
  | opening
  | sending (reconcile : Bool)
  | waiting
  | resuming
  | gating (transfer : TransferCipher) (next : Connection)
  | stepping (transfer : TransferCipher) (next : Connection)
  | finished
deriving DecidableEq

end Reconcile

/-- `sendWithReconcile` (handleSendMessage.ts:807-967) from its first ratchet step on, with the
frames it has sealed. `channel` is the connection of `currentChannel`. -/
structure Reconcile where
  calls : List Reconcile.StepCall
  cipher : Reconcile.TransferCipher
  channel : Reconcile.Connection
  phase : Reconcile.Phase
  retries : Nat
  resumeAttempts : Nat
  aborted : Bool
  frames : List Reconcile.SealedFrame
deriving DecidableEq

namespace Reconcile

/-- The first step has returned and the channel is to open. -/
def start (epc : Connection) (stepped : Stepped) : Reconcile where
  calls := [.fresh epc stepped]
  cipher := ⟨epc, 0, stepped.header, stepped.pqContext.map fun _ => 0⟩
  channel := epc
  phase := .opening
  retries := 0
  resumeAttempts := 0
  aborted := false
  frames := []

/-- Wipe the buffers that a key and a context name. -/
def wipe (calls : List StepCall) (messageKey : Nat) (pqContext : Option Nat) : List StepCall :=
  let calls := calls.modify messageKey StepCall.fillKey
  match pqContext with
  | some index => calls.modify index StepCall.fillRoot
  | none => calls

/-- The `finally` of the transfer (handleSendMessage.ts:959-966). -/
def finish (s : Reconcile) : Reconcile :=
  { s with calls := wipe s.calls s.cipher.messageKey s.cipher.pqContext, phase := .finished }

/-- A chunk is sealed (handleSendMessage.ts:301-316). -/
def sealFrame (s : Reconcile) : Reconcile :=
  let buffer (index : Nat) : Option StepCall := s.calls[index]?
  { s with
    frames := s.frames ++ [⟨s.channel, ((buffer s.cipher.messageKey).map (·.messageKey)).getD [],
      s.cipher.header, s.cipher.pqContext.bind fun index => (buffer index).bind (·.context)⟩] }

/-- The variables after a rebind (handleSendMessage.ts:908-913). -/
def adopt (s : Reconcile) (rebound : TransferCipher) (channel : Connection) : Reconcile :=
  { s with cipher := rebound, channel, retries := 0, phase := .waiting }

/-- `bindTransferCipherToConnection` (handleSendMessage.ts:485-521) up to its first await. -/
def bindTransferCipherToConnection (s : Reconcile) (transfer : TransferCipher) (next : Connection) :
    Reconcile :=
  if s.aborted = true then s.finish
  else if transfer.epc = next then s.adopt transfer next
  else { s with phase := .gating transfer next }

/-- Its step on the replacement has returned (handleSendMessage.ts:507-520). -/
def rebind (s : Reconcile) (transfer : TransferCipher) (next : Connection) (stepped : Stepped) : Reconcile :=
  let index := s.calls.length
  let pqContext := stepped.pqContext.map fun _ => index
  let s := { s with calls := s.calls ++ [StepCall.fresh next stepped] }
  if s.aborted = true then { s with calls := wipe s.calls index pqContext }.finish
  else
    { s with calls := wipe s.calls transfer.messageKey transfer.pqContext }.adopt
      ⟨next, index, stepped.header, pqContext⟩ next

/-! ## The awaits -/

/-- What happens next. -/
inductive Event
  /-- The transfer is cancelled. -/
  | abort
  /-- `waitForOpen` answers. -/
  | opened (isOpen : Bool)
  /-- `sendChunks` comes to its next chunk. -/
  | chunk
  /-- `sendChunks` returns or throws. -/
  | passed (failed : Bool)
  /-- `waitForCompletion` answers: the receiver has confirmed, the channel is dead, and its
  close was the peer's cancel. -/
  | waited (done dead cancelled : Bool)
  /-- `resumeChannel` answers with a connection, the same or a replacement, or gives up. -/
  | resumed (epc : Option Connection)
  /-- The gate of the replacement answers, and whether it has a ratchet. -/
  | gate (opened hasRatchet : Bool)
  /-- `ratchetEncryptDurably` on the replacement returns or throws. -/
  | stepped (result : Option Stepped)

/-- One answer. -/
def step (event : Event) (s : Reconcile) : Reconcile :=
  match event, s.phase with
  | .abort, _ => { s with aborted := true }
  | .opened isOpen, .opening =>
    if isOpen = true ∧ s.aborted = false then { s with phase := .sending false } else s.finish
  | .chunk, .sending _ => if s.aborted = true then s.finish else s.sealFrame
  | .passed failed, .sending reconcile =>
    let retries := if reconcile = true then s.retries + 1 else s.retries
    if failed = false ∧ retries < MAX_RETRANSMITS then { s with retries, phase := .waiting } else s.finish
  | .waited done dead cancelled, .waiting =>
    if s.aborted = true ∨ done = true then s.finish
    else if dead = false then { s with phase := .sending true }
    else if cancelled = true ∨ MAX_RESUME_ATTEMPTS ≤ s.resumeAttempts then s.finish
    else { s with resumeAttempts := s.resumeAttempts + 1, phase := .resuming }
  | .resumed none, .resuming => s.finish
  | .resumed (some next), .resuming =>
    -- the object of the call has no context (handleSendMessage.ts:900)
    s.bindTransferCipherToConnection { s.cipher with pqContext := none } next
  | .gate opened hasRatchet, .gating transfer next =>
    if opened = true ∧ s.aborted = false ∧ hasRatchet = true then { s with phase := .stepping transfer next }
    else s.finish
  | .stepped none, .stepping _ _ => s.finish
  | .stepped (some stepped), .stepping transfer next => s.rebind transfer next stepped
  | _, _ => s

/-! ## Keeping the cipher together -/

/-- A frame sealed with what one call returned, on the connection of that call. -/
def SealedFrame.OfCall (frame : SealedFrame) (call : StepCall) : Prop :=
  call.epc = frame.epc ∧ frame.messageKey = call.returned.messageKey ∧
    frame.header = call.returned.header ∧ frame.pqContext = call.returned.pqContext

/-- A call whose buffers hold zeros. -/
def StepCall.Wiped (call : StepCall) : Prop :=
  call.messageKey = List.replicate call.returned.messageKey.length 0 ∧
    ∀ context, call.returned.pqContext = some context →
      call.rootKey = List.replicate context.rootKey.length 0

/-- A call whose buffers hold what it returned. -/
def StepCall.Intact (call : StepCall) : Prop :=
  call.messageKey = call.returned.messageKey ∧
    ∀ context, call.returned.pqContext = some context → call.rootKey = context.rootKey

/-- What the transfer owes its frames and its keys: every frame is of one call on the
connection it went out on, with a context if every call there returned one; and the calls that
a later one supersedes are wiped. -/
structure Together (s : Reconcile) : Prop where
  frames : ∀ frame ∈ s.frames, ∃ call ∈ s.calls, frame.OfCall call
  contexts : ∀ frame ∈ s.frames, (∀ call ∈ s.calls, call.epc = frame.epc → call.returned.pqContext ≠ none) →
    frame.pqContext ≠ none
  superseded : ∀ call ∈ s.calls.dropLast, call.Wiped

/-- The binding steps that meet no context: a resume on the same connection, and a step on a
replacement, of a transfer that is not cancelled. -/
def Unbroken (event : Event) (s : Reconcile) : Prop :=
  match event, s.phase with
  | .resumed (some next), .resuming => s.aborted = false → next = s.cipher.epc → s.cipher.pqContext = none
  | .stepped (some _), .stepping _ _ => s.aborted = false → s.cipher.pqContext = none
  | _, _ => True

/-- The variables name the buffers of the last call, which are intact, and those before it are
wiped; a rebind on its way was given the same variables without the context. -/
structure Bound (earlier : List StepCall) (call : StepCall) (s : Reconcile) : Prop where
  calls : s.calls = earlier ++ [call]
  wiped : ∀ c ∈ earlier, c.Wiped
  intact : call.Intact
  cipher : s.cipher = ⟨call.epc, earlier.length, call.returned.header,
    call.returned.pqContext.map fun _ => earlier.length⟩
  channel : s.channel = call.epc
  live : s.phase ≠ .finished
  given : ∀ transfer next, s.phase = .gating transfer next ∨ s.phase = .stepping transfer next →
    transfer = { s.cipher with pqContext := none }

/-- The invariant: the frames are of calls, and the transfer is bound or over with every buffer
wiped. -/
structure Safe (s : Reconcile) : Prop where
  sent : ∀ frame ∈ s.frames, ∃ call ∈ s.calls, frame.OfCall call
  binding : (s.phase = .finished ∧ ∀ call ∈ s.calls, call.Wiped) ∨ ∃ earlier call, Bound earlier call s

/-! ## Wiping -/

theorem modify_middle {α : Type} (f : α → α) (a : List α) (c : α) (b : List α) :
    (a ++ c :: b).modify a.length f = a ++ f c :: b := by
  induction a with
  | nil => rfl
  | cons x a ih => exact congrArg (x :: ·) ih

/-- The buffers of a call and of its context, if it has one, filled with zeros. -/
def StepCall.filled (call : StepCall) : StepCall :=
  match call.returned.pqContext with
  | some _ => call.fillKey.fillRoot
  | none => call.fillKey

/-- Wiping the buffers that the variables of a call name. -/
theorem wipe_middle (a : List StepCall) (call : StepCall) (b : List StepCall) :
    wipe (a ++ call :: b) a.length (call.returned.pqContext.map fun _ => a.length) =
      a ++ call.filled :: b := by
  unfold wipe StepCall.filled
  cases call.returned.pqContext with
  | none => exact modify_middle _ _ _ _
  | some context =>
    dsimp only [Option.map_some]
    rw [modify_middle, modify_middle]

theorem StepCall.Intact.filled {call : StepCall} (h : call.Intact) : call.filled.Wiped := by
  obtain ⟨hkey, hroot⟩ := h
  have hzeros : call.fillKey.messageKey = List.replicate call.returned.messageKey.length 0 := by
    rw [← hkey]
    rfl
  unfold StepCall.filled
  cases hcontext : call.returned.pqContext with
  | none => exact ⟨hzeros, fun context hsome => by cases hcontext.symm.trans hsome⟩
  | some context =>
    refine ⟨hzeros, fun other hother => ?_⟩
    cases hcontext.symm.trans hother
    rw [← hroot context hcontext]
    rfl

theorem fresh_intact (epc : Connection) (stepped : Stepped) : (StepCall.fresh epc stepped).Intact := by
  refine ⟨rfl, fun context hcontext => ?_⟩
  show (stepped.pqContext.map (·.rootKey)).getD [] = context.rootKey
  rw [show stepped.pqContext = some context from hcontext]
  rfl

/-- The context of an intact call is the one it returned. -/
theorem StepCall.Intact.context {call : StepCall} (h : call.Intact) : call.context = call.returned.pqContext := by
  unfold StepCall.context
  cases hcontext : call.returned.pqContext with
  | none => rfl
  | some context =>
    rw [Option.map_some, h.2 context hcontext]

/-- What a frame is of does not depend on the buffers. -/
theorem filled_ofCall {frame : SealedFrame} {call : StepCall} :
    frame.OfCall call.filled ↔ frame.OfCall call := by
  unfold StepCall.filled
  cases call.returned.pqContext <;> rfl

/-- The frames of a list of calls are of it after one of them is wiped. -/
theorem ofCall_filled {frame : SealedFrame} {a b : List StepCall} {call : StepCall}
    (h : ∃ c ∈ a ++ call :: b, frame.OfCall c) : ∃ c ∈ a ++ call.filled :: b, frame.OfCall c := by
  obtain ⟨c, hc, hof⟩ := h
  rcases List.mem_append.mp hc with hc | hc
  · exact ⟨c, List.mem_append_left _ hc, hof⟩
  · rcases List.mem_cons.mp hc with rfl | hc
    · exact ⟨c.filled, List.mem_append_right _ List.mem_cons_self, filled_ofCall.mpr hof⟩
    · exact ⟨c, List.mem_append_right _ (List.mem_cons_of_mem _ hc), hof⟩

/-! ## Steps -/

section Steps

variable {s : Reconcile} {earlier : List StepCall} {call : StepCall}

/-- The end of a bound transfer wipes its call. -/
theorem Bound.finish (h : Bound earlier call s) (hsent : ∀ frame ∈ s.frames, ∃ c ∈ s.calls, frame.OfCall c) :
    Safe s.finish := by
  have hcalls : s.finish.calls = earlier ++ [call.filled] := by
    show wipe s.calls s.cipher.messageKey s.cipher.pqContext = _
    rw [h.calls, h.cipher]
    exact wipe_middle earlier call []
  rw [h.calls] at hsent
  refine ⟨fun frame hframe => ?_, .inl ⟨rfl, fun c hc => ?_⟩⟩
  · rw [hcalls]
    exact ofCall_filled (hsent frame hframe)
  · rw [hcalls] at hc
    rcases List.mem_append.mp hc with hc | hc
    · exact h.wiped c hc
    · rw [List.mem_singleton.mp hc]
      exact h.intact.filled

/-- Another phase of a bound transfer. -/
theorem Bound.rephase (h : Bound earlier call s) (hsent : ∀ frame ∈ s.frames, ∃ c ∈ s.calls, frame.OfCall c)
    {phase : Phase} {retries resumeAttempts : Nat} {aborted : Bool} (hlive : phase ≠ .finished)
    (hgiven : ∀ transfer next, phase = .gating transfer next ∨ phase = .stepping transfer next →
      transfer = { s.cipher with pqContext := none }) :
    Safe { s with phase, retries, resumeAttempts, aborted } :=
  ⟨hsent, .inr ⟨earlier, call, h.calls, h.wiped, h.intact, h.cipher, h.channel, hlive, hgiven⟩⟩

/-- A frame of a bound transfer is of its call. -/
theorem Bound.sealFrame (h : Bound earlier call s)
    (hsent : ∀ frame ∈ s.frames, ∃ c ∈ s.calls, frame.OfCall c) : Safe s.sealFrame := by
  have hcall : s.calls[earlier.length]? = some call := by
    rw [h.calls, List.getElem?_append_right (Nat.le_refl _), Nat.sub_self]
    rfl
  have hintact := h.intact
  refine ⟨fun frame hframe => ?_, .inr ⟨earlier, call, h.calls, h.wiped, h.intact, h.cipher, h.channel,
    h.live, h.given⟩⟩
  rcases List.mem_append.mp hframe with hframe | hframe
  · exact hsent frame hframe
  · refine ⟨call, ?_, ?_⟩
    · show call ∈ s.calls
      rw [h.calls]
      exact List.mem_append_right _ (List.mem_singleton_self call)
    · rw [List.mem_singleton.mp hframe, h.cipher, h.channel]
      dsimp only
      rw [hcall]
      refine ⟨rfl, h.intact.1, rfl, ?_⟩
      show (call.returned.pqContext.map fun _ => earlier.length).bind _ = call.returned.pqContext
      cases hcontext : call.returned.pqContext with
      | none => rfl
      | some context =>
        dsimp only [Option.map_some, Option.bind_some]
        rw [hcall, Option.bind_some, h.intact.context, hcontext]

/-- The same connection comes back to a transfer without a context. -/
theorem Bound.adoptSame (h : Bound earlier call s)
    (hsent : ∀ frame ∈ s.frames, ∃ c ∈ s.calls, frame.OfCall c) (hnone : s.cipher.pqContext = none)
    {next : Connection} (hnext : s.cipher.epc = next) :
    Safe (s.adopt { s.cipher with pqContext := none } next) := by
  have hcipher : { s.cipher with pqContext := none } = s.cipher := by rw [← hnone]
  refine ⟨hsent, .inr ⟨earlier, call, h.calls, h.wiped, h.intact, ?_, ?_, nofun, nofun⟩⟩
  · exact hcipher.trans h.cipher
  · rw [h.cipher] at hnext
    exact hnext.symm

/-- A step on a replacement: a transfer that is not cancelled has no context to lose. -/
theorem Bound.rebind (h : Bound earlier call s)
    (hsent : ∀ frame ∈ s.frames, ∃ c ∈ s.calls, frame.OfCall c)
    (hnone : s.aborted = false → s.cipher.pqContext = none) (next : Connection) (stepped : Stepped) :
    Safe (s.rebind { s.cipher with pqContext := none } next stepped) := by
  have hlength : s.calls.length = earlier.length + 1 := by
    rw [h.calls, List.length_append, List.length_singleton]
  have hmore : ∀ frame ∈ s.frames, ∃ c ∈ earlier ++ call :: [StepCall.fresh next stepped], frame.OfCall c := by
    intro frame hframe
    obtain ⟨c, hc, hof⟩ := hsent frame hframe
    rw [h.calls] at hc
    refine ⟨c, ?_, hof⟩
    rcases List.mem_append.mp hc with hc | hc
    · exact List.mem_append_left _ hc
    · rw [List.mem_singleton.mp hc]
      exact List.mem_append_right _ List.mem_cons_self
  have hcalls : s.calls ++ [StepCall.fresh next stepped] = earlier ++ call :: [StepCall.fresh next stepped] := by
    rw [h.calls, List.append_assoc]
    rfl
  unfold Reconcile.rebind
  dsimp only
  rw [hcalls, hlength]
  by_cases haborted : s.aborted = true
  · -- both calls are wiped: the new one here, the old one on the way out
    rw [if_pos haborted]
    have hnew : wipe (earlier ++ call :: [StepCall.fresh next stepped]) (earlier.length + 1)
        (stepped.pqContext.map fun _ => earlier.length + 1) =
        earlier ++ call :: [(StepCall.fresh next stepped).filled] := by
      have hmiddle := wipe_middle (earlier ++ [call]) (StepCall.fresh next stepped) []
      rw [List.length_append, List.length_singleton, List.append_assoc, List.append_assoc] at hmiddle
      exact hmiddle
    have hold : wipe (earlier ++ call :: [(StepCall.fresh next stepped).filled]) s.cipher.messageKey
        s.cipher.pqContext = earlier ++ call.filled :: [(StepCall.fresh next stepped).filled] := by
      rw [h.cipher]
      exact wipe_middle earlier call _
    rw [hnew]
    refine ⟨fun frame hframe => ?_, .inl ⟨rfl, fun c hc => ?_⟩⟩
    · obtain ⟨c, hc, hof⟩ := hsent frame hframe
      show ∃ c ∈ wipe _ _ _, _
      rw [hold]
      refine ofCall_filled ⟨c, ?_, hof⟩
      rw [h.calls] at hc
      rw [List.append_cons]
      exact List.mem_append_left _ hc
    · replace hc : c ∈ wipe _ _ _ := hc
      rw [hold] at hc
      rcases List.mem_append.mp hc with hc | hc
      · exact h.wiped c hc
      · rcases List.mem_cons.mp hc with rfl | hc
        · exact h.intact.filled
        · rw [List.mem_singleton.mp hc]
          exact (fresh_intact next stepped).filled
  · rw [if_neg haborted]
    have hbare := hnone (Bool.eq_false_iff.mpr haborted)
    rw [h.cipher] at hbare
    have hcontext : call.returned.pqContext = none := Option.map_eq_none_iff.mp hbare
    have hwipe : wipe (earlier ++ call :: [StepCall.fresh next stepped]) s.cipher.messageKey none =
        (earlier ++ [call.filled]) ++ [StepCall.fresh next stepped] := by
      have hmiddle := wipe_middle earlier call [StepCall.fresh next stepped]
      rw [hcontext] at hmiddle
      rw [h.cipher, List.append_assoc]
      exact hmiddle
    rw [hwipe]
    refine ⟨fun frame hframe => ?_, .inr ⟨earlier ++ [call.filled], StepCall.fresh next stepped, rfl, ?_,
      fresh_intact next stepped, ?_, rfl, nofun, nofun⟩⟩
    · have hkept := ofCall_filled (hmore frame hframe)
      rw [List.append_cons] at hkept
      exact hkept
    · intro c hc
      rcases List.mem_append.mp hc with hc | hc
      · exact h.wiped c hc
      · rw [List.mem_singleton.mp hc]
        exact h.intact.filled
    · show TransferCipher.mk next (earlier.length + 1) stepped.header _ = _
      rw [List.length_append, List.length_singleton]
      rfl

/-- A finished transfer stays as it is. -/
theorem step_finished (h : s.phase = .finished) (event : Event) :
    step event s = s ∨ step event s = { s with aborted := true } := by
  unfold step
  rw [h]
  cases event with
  | abort => exact .inr rfl
  | resumed epc => cases epc <;> exact .inl rfl
  | stepped result => cases result <;> exact .inl rfl
  | _ => exact .inl rfl

/-- Every answer that meets no context keeps the invariant. -/
theorem step_safe (event : Event) (s : Reconcile) (hunbroken : Unbroken event s) (h : Safe s) :
    Safe (step event s) := by
  obtain ⟨hsent, ⟨hphase, hwiped⟩ | ⟨earlier, call, hbound⟩⟩ := h
  · rcases step_finished hphase event with hstep | hstep
    · rw [hstep]
      exact ⟨hsent, .inl ⟨hphase, hwiped⟩⟩
    · rw [hstep]
      exact ⟨hsent, .inl ⟨hphase, hwiped⟩⟩
  have hsame : Safe s := ⟨hsent, .inr ⟨earlier, call, hbound⟩⟩
  have hfinish : Safe s.finish := hbound.finish hsent
  unfold step
  split
  case h_1 => exact hbound.rephase hsent hbound.live hbound.given
  case h_2 =>
    split
    · exact hbound.rephase hsent nofun nofun
    · exact hfinish
  case h_3 =>
    split
    · exact hfinish
    · exact hbound.sealFrame hsent
  case h_4 failed reconcile hphase =>
    dsimp only
    generalize (if reconcile = true then s.retries + 1 else s.retries) = retries
    split
    · exact hbound.rephase hsent nofun nofun
    · exact hfinish
  case h_5 =>
    split
    · exact hfinish
    · split
      · exact hbound.rephase hsent nofun nofun
      · split
        · exact hfinish
        · exact hbound.rephase hsent nofun nofun
  case h_6 => exact hfinish
  case h_7 next hphase =>
    unfold Unbroken at hunbroken
    rw [hphase] at hunbroken
    unfold bindTransferCipherToConnection
    split
    case isTrue => exact hfinish
    case isFalse haborted =>
      split
      case isTrue hnext =>
        exact hbound.adoptSame hsent (hunbroken (Bool.eq_false_iff.mpr haborted) hnext.symm) hnext
      case isFalse =>
        refine hbound.rephase hsent nofun fun transfer next hgiven => ?_
        rcases hgiven with hgiven | hgiven
        · cases hgiven
          rfl
        · cases hgiven
  case h_8 transfer next hphase =>
    split
    · refine hbound.rephase hsent nofun fun transfer' next' hgiven => ?_
      rcases hgiven with hgiven | hgiven
      · cases hgiven
      · cases hgiven
        exact hbound.given transfer next (.inl hphase)
    · exact hfinish
  case h_9 => exact hfinish
  case h_10 stepped transfer next hphase =>
    unfold Unbroken at hunbroken
    rw [hphase] at hunbroken
    rw [hbound.given transfer next (.inr hphase)]
    exact hbound.rebind hsent hunbroken next stepped
  case h_11 => exact hsame

theorem start_safe (epc : Connection) (stepped : Stepped) : Safe (start epc stepped) := by
  refine ⟨nofun, .inr ⟨[], StepCall.fresh epc stepped, rfl, nofun, fresh_intact epc stepped, rfl, rfl, nofun, ?_⟩⟩
  rintro transfer next (hgiven | hgiven) <;> cases hgiven

end Steps

/-- What the invariant gives. -/
theorem Safe.together {s : Reconcile} (h : Safe s) : Together s := by
  refine ⟨h.sent, fun frame hframe hall => ?_, fun c hc => ?_⟩
  · obtain ⟨call, hcall, hof⟩ := h.sent frame hframe
    rw [hof.2.2.2]
    exact hall call hcall hof.1
  · rcases h.binding with ⟨-, hwiped⟩ | ⟨earlier, call, hbound⟩
    · exact hwiped c (List.dropLast_subset _ hc)
    · rw [hbound.calls, List.dropLast_concat] at hc
      exact hbound.wiped c hc

/-- In every run of a transfer in which no binding step meets a context, with any losses and
resumes, every frame is sealed with what one call on the connection of its channel returned,
what is superseded is wiped, and a transfer that is over has wiped everything. -/
theorem resume_together (epc : Connection) (stepped : Stepped) {events : List Event}
    (h : Along step Unbroken events (start epc stepped)) :
    Together (runs step events (start epc stepped)) ∧
      ((runs step events (start epc stepped)).phase = .finished →
        ∀ call ∈ (runs step events (start epc stepped)).calls, call.Wiped) := by
  have hsafe := Along.invariant step_safe h (start_safe epc stepped)
  refine ⟨hsafe.together, fun hover => ?_⟩
  rcases hsafe.binding with ⟨-, hwiped⟩ | ⟨earlier, call, hbound⟩
  · exact hwiped
  · exact absurd hover hbound.live

/-- A step with a context, and one without. -/
def sampleStep (pqContext : Option PqMessageKeyContext) : Stepped :=
  ⟨[1, 2, 3], ⟨[4, 5, 6], 0, 0⟩, pqContext⟩

def sampleContext : PqMessageKeyContext := ⟨[7, 8, 9], [], .hybridMlkem768, 0⟩

/-- A pass, a lost channel, a connection that comes back, and a second pass. -/
def lossAndResume (resumes : List Event) : List Event :=
  [.opened true, .chunk, .passed false, .waited false true false] ++ resumes ++
    [.waited false false false, .chunk, .passed false, .waited true false false]

/-- A transfer without a context moves to a replacement that has one. -/
theorem resume_together_replaced :
    let s := runs step (lossAndResume [.resumed (some 1), .gate true true,
      .stepped (some (sampleStep (some sampleContext)))]) (start 0 (sampleStep none))
    s.frames.length = 2 ∧ Together s ∧ ∀ call ∈ s.calls, call.Wiped := by
  have hrun : Along step Unbroken (lossAndResume [.resumed (some 1), .gate true true,
      .stepped (some (sampleStep (some sampleContext)))]) (start 0 (sampleStep none)) :=
    ⟨trivial, trivial, trivial, trivial, fun _ hsame => absurd hsame (by decide), trivial, fun _ => rfl,
      trivial, trivial, trivial, trivial, trivial⟩
  have htogether := resume_together 0 (sampleStep none) hrun
  exact ⟨by decide, htogether.1, htogether.2 (by decide)⟩

/-- The same connection comes back, and the second pass seals without the context. -/
theorem resume_drops_context :
    ¬ Together (runs step (lossAndResume [.resumed (some 0)]) (start 0 (sampleStep (some sampleContext)))) := by
  intro htogether
  exact htogether.contexts ⟨0, [1, 2, 3], ⟨[4, 5, 6], 0, 0⟩, none⟩ (by decide) (by decide) rfl

end Reconcile

end P2Party
