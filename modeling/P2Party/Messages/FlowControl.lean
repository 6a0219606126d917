import Mathlib.Data.Finset.Card
import P2Party.Base.Runs
import P2Party.Messages.Queueing
import P2Party.Messages.SplitIdentity

/-!
# The receipt window and the receiver's queue (`handlers/handleSendMessage.ts`, `handlers/handleMessageQueueing.ts`)

A message channel of the receiver queues at most `MAX_QUEUED_FRAMES_PER_CHANNEL` frames and
closes when one more arrives. The sender holds a real frame while `SEND_RECEIPT_WINDOW` real
frames of its pass are without a receipt. Decoys are not held, and the window of a
retransmission pass starts from nothing whatever earlier passes left on the way.

A wait that ends because receipts stall is left out: receipts come in time here. So are the
bytes that other channels queue on the edge.

- `Flow`, `Event`, `step`: the passes, the channel, the queue and the receipts;
- `reach`: how many frames can be on the way before the window holds the pass;
- `Affordable`: the pass that begins fits what earlier passes left on the way;
- `queue_within_budget`: then no frame is refused.
-/

namespace P2Party

open Base
open Queueing (MAX_QUEUED_FRAMES_PER_CHANNEL)

namespace FlowControl

/-! ## The two ends of a message channel -/

/-- `SEND_RECEIPT_WINDOW` (handleSendMessage.ts:82). -/
abbrev SEND_RECEIPT_WINDOW : Nat := MAX_QUEUED_FRAMES_PER_CHANNEL / 2

/-- A transfer: the pass of the sender (`indexesRandomized` from its next round on), the chunks
it knows to be acknowledged, the frames and receipts on the way, and the queue of the receiver
with the frame that `drain` awaits. A frame is the index of its chunk; the newest of the queue
is in front. -/
structure Flow where
  isOpen : Bool
  started : Bool
  todo : List Nat
  reconcileAcked : Option (Finset Nat)
  ackedAtPassStart : Nat
  sentRealThisPass : Nat
  acked : Finset Nat
  wire : List Nat
  queue : List Nat
  processing : Option Nat
  released : Bool
  refused : List Nat
  receipts : List Nat
deriving DecidableEq

/-- The channel is open and nothing is sent. -/
def Flow.opened : Flow where
  isOpen := true
  started := false
  todo := []
  reconcileAcked := none
  ackedAtPassStart := 0
  sentRealThisPass := 0
  acked := ∅
  wire := []
  queue := []
  processing := none
  released := false
  refused := []
  receipts := []

/-- What happens to a transfer. -/
inductive Event
  /-- `sendChunks` is called and shuffles the indexes. -/
  | pass (order : List Nat)
  /-- The next round of its loop. -/
  | send
  /-- A frame arrives. -/
  | deliver (k : Nat)
  /-- `processMessage` returns, and the chunk is in the store or is not. -/
  | processed (stored : Bool)
  /-- A receipt arrives. -/
  | receipt (k : Nat)
  /-- A receipt is lost with its channel. -/
  | receiptLost (k : Nat)
  /-- The channel closes. -/
  | close
  /-- It is opened again on another connection, and the receiver repeats its receipts. -/
  | resume (replayed : List Nat)
deriving DecidableEq

variable (chunks : List Metadata)

/-- `isRealChunk` of a staged chunk. -/
def isReal (i : Nat) : Bool := chunks[i]?.any isRealChunk

/-- Whether a pass sends a chunk (handleSendMessage.ts:185-187). -/
def resends (reconcileAcked : Option (Finset Nat)) (i : Nat) : Bool :=
  match reconcileAcked with
  | none => true
  | some acked => isReal chunks i && decide (i ∉ acked)

/-- `inFlight` (handleSendMessage.ts:196-198). -/
def Flow.inFlight (s : Flow) : Int :=
  s.sentRealThisPass - max 0 ((s.acked.card : Int) - s.ackedAtPassStart)

/-- A real chunk waits for its place in the window (handleSendMessage.ts:191-201). -/
def Flow.held (s : Flow) (i : Nat) : Prop :=
  isReal chunks i ∧ s.isOpen ∧ SEND_RECEIPT_WINDOW ≤ s.inFlight

instance (s : Flow) (i : Nat) : Decidable (s.held chunks i) :=
  inferInstanceAs (Decidable (_ ∧ _ ∧ _))

/-- A round of `sendChunks` (handleSendMessage.ts:163-325). -/
def sendRound (s : Flow) : Flow :=
  match s.todo with
  | [] => s
  | i :: rest =>
    if resends chunks s.reconcileAcked i = false then { s with todo := rest }
    else if s.held chunks i then s
    else if s.isOpen = false then { s with todo := [] }
    else
      { s with
        todo := rest
        sentRealThisPass := s.sentRealThisPass + if isReal chunks i then 1 else 0
        wire := s.wire ++ [i] }

/-- A pass begins when the one before it is over, on all indexes in some order. -/
def Flow.begins (s : Flow) (order : List Nat) : Prop :=
  s.todo = [] ∧ s.isOpen ∧ order.Perm (List.range chunks.length)

instance (s : Flow) (order : List Nat) : Decidable (s.begins chunks order) :=
  inferInstanceAs (Decidable (_ ∧ _ ∧ _))

/-- What the pass that begins is to skip: nothing at first, then `getAckedChunks`
(handleSendMessage.ts:841, 940). -/
def Flow.skips (s : Flow) : Option (Finset Nat) := if s.started then some s.acked else none

/-- `drain` takes the next frame (handleMessageQueueing.ts:479-481). -/
def Flow.pop (s : Flow) : Flow :=
  match s.queue with
  | [] => { s with processing := none }
  | i :: queue => { s with queue, processing := some i }

/-- `enqueue` (handleMessageQueueing.ts:532-586), and the close that follows a refusal
(handleOpenChannel.ts:604-610). -/
def enqueue (i : Nat) (s : Flow) : Flow :=
  if s.released then s
  else if MAX_QUEUED_FRAMES_PER_CHANNEL ≤ s.queue.length then
    { s with refused := s.refused ++ [i], released := true, queue := [] }
  else if s.processing.isNone then Flow.pop { s with queue := i :: s.queue }
  else { s with queue := i :: s.queue }

/-- The frame that `drain` awaits is done: a real chunk in the store gets its receipt
(handleMessageQueueing.ts:300-317, 372-378). -/
def processed (stored : Bool) (s : Flow) : Flow :=
  match s.processing with
  | none => s
  | some i =>
    if s.released then { s with processing := none }
    else if stored && isReal chunks i then Flow.pop { s with receipts := s.receipts ++ [i] }
    else s.pop

/-- What an event does. -/
def step : Event → Flow → Flow
  | .pass order, s =>
    if s.begins chunks order then
      { s with
        started := true, todo := order, reconcileAcked := s.skips
        ackedAtPassStart := s.acked.card, sentRealThisPass := 0 }
    else s
  | .send, s => sendRound chunks s
  | .deliver k, s =>
    match s.wire[k]? with
    | none => s
    | some i => enqueue i { s with wire := s.wire.eraseIdx k }
  | .processed stored, s => processed chunks stored s
  | .receipt k, s =>
    match s.receipts[k]? with
    | none => s
    | some i => { s with receipts := s.receipts.eraseIdx k, acked := insert i s.acked }
  | .receiptLost k, s => { s with receipts := s.receipts.eraseIdx k }
  | .close, s => { s with isOpen := false, wire := [], queue := [], released := true }
  | .resume replayed, s =>
    if s.isOpen = false ∧ s.todo = [] then
      { s with
        isOpen := true, wire := [], queue := [], processing := none, released := false
        receipts := s.receipts ++ replayed }
    else s

/-! ## How far a pass can go -/

/-- Frames that are sent and not processed. -/
def Flow.outstanding (s : Flow) : Nat := s.wire.length + s.queue.length + s.processing.toList.length

/-- Acknowledgements on the way. -/
def Flow.late (s : Flow) : Nat := (s.receipts.toFinset \ s.acked).card

/-- The decoys among the chunks that a pass is to send. -/
def decoys (reconcileAcked : Option (Finset Nat)) (order : List Nat) : Nat :=
  order.countP fun i => resends chunks reconcileAcked i && !isReal chunks i

/-- The real chunks among them. -/
def reals (reconcileAcked : Option (Finset Nat)) (order : List Nat) : Nat :=
  order.countP fun i => resends chunks reconcileAcked i && isReal chunks i

/-- How many more real frames the window lets through without another receipt being sent. -/
def Flow.slack (s : Flow) : Nat :=
  SEND_RECEIPT_WINDOW + s.late + (s.acked.card - s.ackedAtPassStart) - s.sentRealThisPass

/-- How many frames can be on the way before the pass is held or over. -/
def Flow.reach (s : Flow) : Nat :=
  s.outstanding + decoys chunks s.reconcileAcked s.todo +
    min (reals chunks s.reconcileAcked s.todo) s.slack

/-- A pass begins with room for its decoys and for as many real chunks as its window can let
through. -/
def Affordable : Event → Flow → Prop
  | .pass order, s =>
    s.begins chunks order →
      s.outstanding + decoys chunks s.skips order +
        min (reals chunks s.skips order) (SEND_RECEIPT_WINDOW + s.late) ≤ MAX_QUEUED_FRAMES_PER_CHANNEL
  | _, _ => True

/-! ## No step goes further -/

variable {chunks} {s : Flow}

/-- Frames that leave the way make room for at least the acknowledgements they cause. -/
theorem reach_le {s' : Flow} (hskip : s'.reconcileAcked = s.reconcileAcked) (htodo : s'.todo = s.todo)
    (hout : s'.outstanding ≤ s.outstanding) (hslack : s'.outstanding + s'.slack ≤ s.outstanding + s.slack) :
    s'.reach chunks ≤ s.reach chunks := by
  unfold Flow.reach
  rw [hskip, htodo]
  omega

/-- `pop` drops the frame that was awaited. -/
theorem outstanding_pop (s : Flow) : s.pop.outstanding = s.wire.length + s.queue.length := by
  unfold Flow.pop
  cases hqueue : s.queue with
  | nil => rfl
  | cons i queue =>
    simp only [Flow.outstanding, List.length_cons, Option.toList_some, List.length_nil]
    omega

@[simp] theorem pop_todo (s : Flow) : s.pop.todo = s.todo := by
  unfold Flow.pop
  split <;> rfl

@[simp] theorem pop_reconcileAcked (s : Flow) : s.pop.reconcileAcked = s.reconcileAcked := by
  unfold Flow.pop
  split <;> rfl

@[simp] theorem pop_slack (s : Flow) : s.pop.slack = s.slack := by
  unfold Flow.pop
  split <;> rfl

@[simp] theorem pop_refused (s : Flow) : s.pop.refused = s.refused := by
  unfold Flow.pop
  split <;> rfl

/-- What is not held is inside the window. -/
theorem slack_of_not_held {i : Nat} (hreal : isReal chunks i = true) (hopen : s.isOpen = true)
    (h : ¬ s.held chunks i) :
    s.sentRealThisPass < SEND_RECEIPT_WINDOW + (s.acked.card - s.ackedAtPassStart) := by
  have hwindow : s.inFlight < SEND_RECEIPT_WINDOW := by
    by_contra hle
    exact h ⟨hreal, hopen, Int.not_lt.mp hle⟩
  unfold Flow.inFlight at hwindow
  omega

/-- A frame that is sent moves from what the pass is to send to what is on the way. -/
theorem sent_reach {i : Nat} {rest : List Nat} (htodo : s.todo = i :: rest)
    (hsends : resends chunks s.reconcileAcked i = true) (hopen : s.isOpen = true) (hheld : ¬ s.held chunks i) :
    Flow.reach chunks
      { s with
        todo := rest
        sentRealThisPass := s.sentRealThisPass + if isReal chunks i then 1 else 0
        wire := s.wire ++ [i] } ≤ s.reach chunks := by
  unfold Flow.reach
  rw [htodo]
  simp only [Flow.outstanding, Flow.slack, Flow.late, List.length_append, List.length_cons, List.length_nil]
  cases hreal : isReal chunks i with
  | false =>
    have hdecoys : decoys chunks s.reconcileAcked (i :: rest) = decoys chunks s.reconcileAcked rest + 1 :=
      List.countP_cons_of_pos (by simp [hsends, hreal])
    have hreals : reals chunks s.reconcileAcked (i :: rest) = reals chunks s.reconcileAcked rest :=
      List.countP_cons_of_neg (by simp [hreal])
    rw [hdecoys, hreals, if_neg (by decide)]
    omega
  | true =>
    have hdecoys : decoys chunks s.reconcileAcked (i :: rest) = decoys chunks s.reconcileAcked rest :=
      List.countP_cons_of_neg (by simp [hreal])
    have hreals : reals chunks s.reconcileAcked (i :: rest) = reals chunks s.reconcileAcked rest + 1 :=
      List.countP_cons_of_pos (by simp [hsends, hreal])
    have hslack := slack_of_not_held hreal hopen hheld
    rw [hdecoys, hreals, if_pos rfl]
    -- the window has room, so one frame less is to be let through
    simp only [SEND_RECEIPT_WINDOW] at hslack ⊢
    omega

theorem sendRound_reach (s : Flow) : (sendRound chunks s).reach chunks ≤ s.reach chunks := by
  unfold sendRound
  cases htodo : s.todo with
  | nil => exact le_rfl
  | cons i rest =>
    dsimp only
    by_cases hsends : resends chunks s.reconcileAcked i = false
    · rw [if_pos hsends]
      unfold Flow.reach
      rw [htodo, decoys, decoys, reals, reals, List.countP_cons_of_neg (by simp [hsends]),
        List.countP_cons_of_neg (by simp [hsends])]
      exact le_rfl
    rw [if_neg hsends]
    by_cases hheld : s.held chunks i
    · rw [if_pos hheld]
    rw [if_neg hheld]
    by_cases hopen : s.isOpen = false
    · rw [if_pos hopen]
      show s.outstanding + 0 + min 0 s.slack ≤ s.reach chunks
      unfold Flow.reach
      omega
    · rw [if_neg hopen]
      exact sent_reach htodo ((Bool.not_eq_false _).mp hsends) ((Bool.not_eq_false _).mp hopen) hheld

theorem sendRound_refused (s : Flow) : (sendRound chunks s).refused = s.refused := by
  unfold sendRound
  split
  · rfl
  · split_ifs <;> rfl

/-- A frame that arrives finds room when everything on the way fits the queue. -/
theorem enqueue_room {i : Nat} (h : s.outstanding < MAX_QUEUED_FRAMES_PER_CHANNEL) :
    (enqueue i s).reconcileAcked = s.reconcileAcked ∧ (enqueue i s).todo = s.todo ∧
      (enqueue i s).outstanding ≤ s.outstanding + 1 ∧ (enqueue i s).slack = s.slack ∧
      (enqueue i s).refused = s.refused := by
  unfold enqueue
  by_cases hreleased : s.released
  · rw [if_pos hreleased]
    exact ⟨rfl, rfl, Nat.le_succ _, rfl, rfl⟩
  rw [if_neg hreleased, if_neg (by unfold Flow.outstanding at h; omega)]
  by_cases hidle : s.processing.isNone
  · rw [if_pos hidle]
    refine ⟨pop_reconcileAcked _, pop_todo _, ?_, pop_slack _, pop_refused _⟩
    rw [outstanding_pop]
    simp only [Flow.outstanding, List.length_cons]
    omega
  · rw [if_neg hidle]
    refine ⟨rfl, rfl, ?_, rfl, rfl⟩
    simp only [Flow.outstanding, List.length_cons]
    omega

/-- A receipt that is sent is one acknowledgement more on the way. -/
theorem late_append (i : Nat) (s : Flow) :
    Flow.late { s with receipts := s.receipts ++ [i] } ≤ s.late + 1 := by
  have hsub : (s.receipts ++ [i]).toFinset \ s.acked ⊆ insert i (s.receipts.toFinset \ s.acked) := by
    intro j hj
    simp only [List.toFinset_append, Finset.mem_sdiff, Finset.mem_union, List.mem_toFinset,
      List.mem_singleton, Finset.mem_insert] at hj ⊢
    obtain ⟨hmem | rfl, hacked⟩ := hj
    · exact Or.inr ⟨hmem, hacked⟩
    · exact Or.inl rfl
  exact (Finset.card_le_card hsub).trans (Finset.card_insert_le i _)

/-- A frame that is done leaves the way, and sends one receipt at most. -/
theorem processed_reach (stored : Bool) (s : Flow) :
    (processed chunks stored s).reach chunks ≤ s.reach chunks := by
  unfold processed
  cases hprocessing : s.processing with
  | none => exact le_rfl
  | some i =>
    dsimp only
    have hout : s.outstanding = s.wire.length + s.queue.length + 1 := by
      unfold Flow.outstanding
      rw [hprocessing]
      rfl
    by_cases hreleased : s.released
    · rw [if_pos hreleased]
      have hdone : Flow.outstanding { s with processing := none } = s.wire.length + s.queue.length := rfl
      refine reach_le rfl rfl (by omega) ?_
      show _ + s.slack ≤ _
      omega
    rw [if_neg hreleased]
    by_cases hreceipt : (stored && isReal chunks i) = true
    · rw [if_pos hreceipt]
      have hpop := outstanding_pop { s with processing := some i, receipts := s.receipts ++ [i] }
      dsimp only at hpop
      refine reach_le (pop_reconcileAcked _) (pop_todo _) (by omega) ?_
      have hlate := late_append i s
      have hslack : Flow.slack { s with processing := some i, receipts := s.receipts ++ [i] } ≤ s.slack + 1 := by
        simp only [Flow.slack, Flow.late] at hlate ⊢
        omega
      rw [pop_slack]
      omega
    · rw [if_neg hreceipt]
      have hpop := outstanding_pop s
      refine reach_le (pop_reconcileAcked _) (pop_todo _) (by omega) ?_
      rw [pop_slack]
      omega

theorem processed_refused (stored : Bool) (s : Flow) : (processed chunks stored s).refused = s.refused := by
  unfold processed
  cases s.processing with
  | none => rfl
  | some i =>
    dsimp only
    split_ifs
    · rfl
    · exact pop_refused _
    · exact pop_refused _

/-- A receipt that arrives makes as much room in the window as it took on the way. -/
theorem receipt_slack {i k : Nat} (h : s.receipts[k]? = some i) :
    Flow.slack { s with receipts := s.receipts.eraseIdx k, acked := insert i s.acked } ≤ s.slack := by
  have hmem : i ∈ s.receipts := List.mem_of_getElem? h
  have hsub : (s.receipts.eraseIdx k).toFinset \ insert i s.acked ⊆ (s.receipts.toFinset \ s.acked).erase i := by
    intro j hj
    simp only [Finset.mem_sdiff, List.mem_toFinset, Finset.mem_insert, not_or, Finset.mem_erase] at hj ⊢
    exact ⟨hj.2.1, List.mem_of_mem_eraseIdx hj.1, hj.2.2⟩
  have hlate := Finset.card_le_card hsub
  simp only [Flow.slack, Flow.late]
  by_cases hacked : i ∈ s.acked
  · rw [Finset.insert_eq_of_mem hacked] at hlate ⊢
    have herase := Finset.card_erase_le (s := s.receipts.toFinset \ s.acked) (a := i)
    omega
  · have hnew : i ∈ s.receipts.toFinset \ s.acked := Finset.mem_sdiff.mpr ⟨List.mem_toFinset.mpr hmem, hacked⟩
    rw [Finset.card_erase_of_mem hnew] at hlate
    have hpos := Finset.card_pos.mpr ⟨i, hnew⟩
    rw [Finset.card_insert_of_notMem hacked]
    omega

theorem receiptLost_slack (k : Nat) (s : Flow) :
    Flow.slack { s with receipts := s.receipts.eraseIdx k } ≤ s.slack := by
  have hsub : (s.receipts.eraseIdx k).toFinset \ s.acked ⊆ s.receipts.toFinset \ s.acked := by
    intro j hj
    simp only [Finset.mem_sdiff, List.mem_toFinset] at hj ⊢
    exact ⟨List.mem_of_mem_eraseIdx hj.1, hj.2⟩
  have hlate := Finset.card_le_card hsub
  simp only [Flow.slack, Flow.late]
  omega

/-! ## Runs -/

/-- What can be on the way fits the queue, and nothing was refused. -/
structure Within (chunks : List Metadata) (s : Flow) : Prop where
  reach : s.reach chunks ≤ MAX_QUEUED_FRAMES_PER_CHANNEL
  refused : s.refused = []

theorem Within.outstanding (h : Within chunks s) : s.outstanding ≤ MAX_QUEUED_FRAMES_PER_CHANNEL := by
  have hreach := h.reach
  unfold Flow.reach at hreach
  omega

theorem Within.of_le {s' : Flow} (h : Within chunks s) (hskip : s'.reconcileAcked = s.reconcileAcked)
    (htodo : s'.todo = s.todo) (hout : s'.outstanding ≤ s.outstanding)
    (hslack : s'.outstanding + s'.slack ≤ s.outstanding + s.slack) (hrefused : s'.refused = s.refused) :
    Within chunks s' :=
  ⟨(reach_le hskip htodo hout hslack).trans h.reach, hrefused.trans h.refused⟩

theorem opened_within (chunks : List Metadata) : Within chunks Flow.opened := ⟨Nat.zero_le _, rfl⟩

theorem deliver_within {i k : Nat} (h : Within chunks s) (hk : s.wire[k]? = some i) :
    Within chunks (enqueue i { s with wire := s.wire.eraseIdx k }) := by
  obtain ⟨hlt, -⟩ := List.getElem?_eq_some_iff.mp hk
  have hlength := List.length_eraseIdx_of_lt hlt
  have hout := h.outstanding
  have hless : Flow.outstanding { s with wire := s.wire.eraseIdx k } + 1 = s.outstanding := by
    simp only [Flow.outstanding]
    omega
  obtain ⟨hskip, htodo, hle, hslack, hrefused⟩ :=
    @enqueue_room { s with wire := s.wire.eraseIdx k } i (by omega)
  refine h.of_le hskip htodo (by omega) ?_ hrefused
  rw [hslack]
  show _ + s.slack ≤ _
  omega

theorem step_within (event : Event) (s : Flow) (haffordable : Affordable chunks event s)
    (h : Within chunks s) : Within chunks (step chunks event s) := by
  cases event with
  | pass order =>
    rw [step]
    by_cases hbegins : s.begins chunks order
    · rw [if_pos hbegins]
      refine ⟨?_, h.refused⟩
      have hroom := haffordable hbegins
      have hslack : Flow.slack
          { s with
            started := true, todo := order, reconcileAcked := s.skips
            ackedAtPassStart := s.acked.card, sentRealThisPass := 0 } = SEND_RECEIPT_WINDOW + s.late := by
        simp only [Flow.slack, Flow.late]
        omega
      unfold Flow.reach
      rw [hslack]
      exact hroom
    · rw [if_neg hbegins]
      exact h
  | send => exact ⟨(sendRound_reach s).trans h.reach, (sendRound_refused s).trans h.refused⟩
  | deliver k =>
    rw [step]
    split
    · exact h
    · exact deliver_within h ‹_›
  | processed stored => exact ⟨(processed_reach stored s).trans h.reach, (processed_refused stored s).trans h.refused⟩
  | receipt k =>
    rw [step]
    split
    · exact h
    · rename_i i hk
      exact h.of_le rfl rfl le_rfl (Nat.add_le_add_left (receipt_slack hk) _) rfl
  | receiptLost k => exact h.of_le rfl rfl le_rfl (Nat.add_le_add_left (receiptLost_slack k s) _) rfl
  | close =>
    have hout : (step chunks .close s).outstanding ≤ s.outstanding := by simp [step, Flow.outstanding]
    exact h.of_le rfl rfl hout (Nat.add_le_add_right hout _) rfl
  | resume replayed =>
    rw [step]
    by_cases hclosed : s.isOpen = false ∧ s.todo = []
    · rw [if_pos hclosed]
      refine ⟨?_, h.refused⟩
      unfold Flow.reach
      dsimp only
      rw [hclosed.2]
      simp [Flow.outstanding, decoys, reals]
    · rw [if_neg hclosed]
      exact h

/-- In a run whose passes all begin with room, the frames that are delivered and not processed
never exceed the budget of the channel, and no frame is refused. -/
theorem queue_within_budget (chunks : List Metadata) (events : List Event)
    (h : Along (step chunks) (Affordable chunks) events Flow.opened) :
    (runs (step chunks) events Flow.opened).queue.length +
        (runs (step chunks) events Flow.opened).processing.toList.length ≤ MAX_QUEUED_FRAMES_PER_CHANNEL ∧
      (runs (step chunks) events Flow.opened).refused = [] := by
  have hwithin : Within chunks (runs (step chunks) events Flow.opened) :=
    h.invariant step_within (opened_within chunks)
  have hout := hwithin.outstanding
  unfold Flow.outstanding at hout
  exact ⟨by omega, hwithin.refused⟩

/-! ## The transfer of a split -/

/-- The metadata of the chunks of a split, as the sender reads it. -/
def stagedMetadata (L : LibCrypto) (message : Outgoing) (minChunks : Nat) {chunkSize : Nat} (fill : ℚ)
    (coins : SplitCoins chunkSize) (time : TimeValue) : List Metadata :=
  (List.range (plannedChunks message.bytes.length minChunks chunkSize fill)).map
    (readAt coins (messageMetadata L message coins time) message.bytes (maxChunkStartIndex chunkSize fill)
      (maxBytesToCopy chunkSize fill))

theorem deserialize_splitChunks (L : LibCrypto) {message : Outgoing} {minChunks chunkSize : Nat} {fill : ℚ}
    {availableSpace : Nat} (time : TimeValue) (coins : SplitCoins chunkSize)
    (h : Splittable message.bytes.length minChunks chunkSize fill availableSpace) :
    (splitChunks L message minChunks fill coins time).map (fun chunk => deserializeMetadata chunk.metadata) =
      (stagedMetadata L message minChunks fill coins time).map .ok := by
  have hsafe := planned_le_safe h
  rw [splitChunks, stagedMetadata, List.map_map, List.map_map]
  refine List.map_congr_left fun i hi => ?_
  have hlt := List.mem_range.mp hi
  exact deserialize_stagedAt L coins (splitBounds h.chunk h.fraction h.size.2)
    (messageMetadata_fits L coins time h.size.2) (by omega)

/-- A one-byte picture in at least so many chunks. -/
def pictureChunks (minChunks : Nat) : List Metadata :=
  stagedMetadata LibCrypto.transparent (.file "a.png" [1]) minChunks (9 / 10) sampleSplitCoins ⟨0, by decide⟩

/-- The picture in three chunks, of which the first to arrive is a decoy. -/
theorem queue_within_budget_picture :
    (runs (step (pictureChunks 3)) [.pass [2, 0, 1], .send, .send, .deliver 0, .deliver 0] Flow.opened).queue = [0] ∧
    (runs (step (pictureChunks 3)) [.pass [2, 0, 1], .send, .send, .deliver 0, .deliver 0] Flow.opened).refused
      = [] :=
  ⟨by decide +kernel,
    (queue_within_budget (pictureChunks 3) [.pass [2, 0, 1], .send, .send, .deliver 0, .deliver 0]
      ⟨fun _ => by decide +kernel, trivial, trivial, trivial, trivial, trivial⟩).2⟩

/-- The picture in 66 chunks: one real frame and 65 decoys are sent with no wait, and the last
one finds the queue full when they arrive before the first is processed. -/
theorem queue_refuses_decoys :
    ∃ result, splitToChunks LibCrypto.transparent (.file "a.png" [1]) 66 CHUNK_LEN (9 / 10) 1 5000000
        ⟨0, by decide⟩ sampleSplitCoins = .ok result ∧
      result.chunks.map (fun chunk => deserializeMetadata chunk.metadata) = (pictureChunks 66).map .ok ∧
      (runs (step (pictureChunks 66))
        (.pass (List.range 66) :: List.replicate 66 .send ++ List.replicate 66 (.deliver 0))
        Flow.opened).refused = [65] := by
  have hsplit : Splittable (Outgoing.bytes (.file "a.png" [1])).length 66 CHUNK_LEN (9 / 10) 5000000 := by
    refine ⟨by decide, by decide, by decide, by norm_num, ?_, ?_⟩ <;> decide +kernel
  obtain ⟨merkleRoot, heq⟩ := splitToChunks_eq LibCrypto.transparent ⟨0, by decide⟩ sampleSplitCoins hsplit
  rw [if_neg (by decide +kernel)] at heq
  exact ⟨_, heq, deserialize_splitChunks _ _ _ hsplit, by decide +kernel⟩

end FlowControl

end P2Party
