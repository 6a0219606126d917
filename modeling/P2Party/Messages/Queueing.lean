import P2Party.Base.JsString
import P2Party.Base.PromiseLock
import P2Party.Base.Runs

/-!
# Inbound queues (`handlers/handleMessageQueueing.ts`)

Every data channel has a queue of chunk frames and a queue of receipts. A queue is drained by one
loop that takes an item, waits for the lock of the edge, has the item handled and goes on; it ends
when the queue is empty and is started again by the next item, or after a handler that failed.
Two counters per edge bound what may be queued, and the test for quiescence reads the counter of
bytes and the lock.

The two kinds of queue are the same code but for their limits, the end they are taken from and
their memory of what was seen: `Kind` has what differs.

- `Lane`: a queue, with what has become of its items;
- `enqueueIn`, `drainLoop`, `releaseIn`: what the source does with a queue;
- `Inbound.step`: all queues, the counters and the lock, event by event;
- `hasQueuedEdgeReceiveWork`: the test for quiescence.
-/

namespace P2Party

open Base

namespace Queueing

/-! ## Limits -/

/-- `k32` (handleMessageQueueing.ts:32-46): a short frame in full, of a long one both ends. -/
def k32 (u8 : Bytes) : List Char :=
  if u8.length < 32 then Nat.toDigits 10 u8.length ++ ':' :: hexChars u8
  else hexChars (u8.take 16) ++ hexChars (u8.drop (u8.length - 16))

/-- `MAX_QUEUED_FRAMES_PER_CHANNEL` (handleMessageQueueing.ts:90). -/
abbrev MAX_QUEUED_FRAMES_PER_CHANNEL : Nat := 64

/-- `MAX_QUEUED_BYTES_PER_EDGE`. -/
abbrev MAX_QUEUED_BYTES_PER_EDGE : Nat := 16 * 1024 * 1024

/-- `MAX_QUEUED_RECEIPTS_PER_CHANNEL`. -/
abbrev MAX_QUEUED_RECEIPTS_PER_CHANNEL : Nat := 2048

/-- `MAX_QUEUED_RECEIPTS_PER_EDGE`. -/
abbrev MAX_QUEUED_RECEIPTS_PER_EDGE : Nat := 8192

/-- `MAX_SEEN_SIZE` of `enqueue`. -/
abbrev MAX_SEEN_SIZE : Nat := 4096

/-- `edgeQueueKey` (handleMessageQueueing.ts:92-93). -/
def edgeQueueKey (roomId peerId : JsString) : JsString :=
  JsString.decimal roomId.length ++ 0x3a :: (roomId ++ peerId)

/-- A key names one edge. -/
theorem edgeQueueKey_inj {r p r' p' : JsString} (h : edgeQueueKey r p = edgeQueueKey r' p') :
    r = r' ∧ p = p' := by
  obtain ⟨hlength, h⟩ :=
    append_sep_inj (JsString.colon_notMem_decimal _) (JsString.colon_notMem_decimal _) h
  exact List.append_inj h (JsString.decimal_injective hlength)

/-- The two kinds of queue. -/
inductive Kind
  | frames
  | receipts
deriving DecidableEq, Repr

namespace Kind

/-- How many items a queue may hold. -/
def perQueue : Kind → Nat
  | frames => MAX_QUEUED_FRAMES_PER_CHANNEL
  | receipts => MAX_QUEUED_RECEIPTS_PER_CHANNEL

/-- How much the queues of an edge may hold. -/
def perEdge : Kind → Nat
  | frames => MAX_QUEUED_BYTES_PER_EDGE
  | receipts => MAX_QUEUED_RECEIPTS_PER_EDGE

/-- What an item counts: its bytes, or one. -/
def weight : Kind → Bytes → Nat
  | frames, data => data.length
  | receipts, _ => 1

/-- How many items are remembered. -/
def seenLimit : Kind → Nat
  | frames => MAX_SEEN_SIZE
  | receipts => MAX_QUEUED_RECEIPTS_PER_CHANNEL * 2

/-- `queue.pop()`, or `pending.shift()`. -/
def take : Kind → List Bytes → Option (Bytes × List Bytes)
  | frames, queue => queue.getLast?.map fun last => (last, queue.dropLast)
  | receipts, [] => none
  | receipts, first :: rest => some (first, rest)

end Kind

/-! ## One queue -/

/-- Where the draining loop of a queue stands: it does not run, it has taken an item and waits for
the lock or for the handler, or the handler is done and the loop has yet to go on. -/
inductive Drain
  | idle
  | locked (item : Bytes) (ticket : Nat)
  | resuming (item : Bytes) (ok : Bool)
deriving DecidableEq

/-- A queue of a channel. The last three fields are what has become of its items. -/
structure Lane where
  kind : Kind
  roomId : JsString
  peerId : JsString
  queue : List Bytes
  seen : List (List Char)
  draining : Bool
  released : Bool
  aborted : Bool
  drain : Drain
  accepted : List Bytes
  handled : List Bytes
  dropped : List Bytes

namespace Lane

/-- The key of the edge. -/
def key (lane : Lane) : JsString := edgeQueueKey lane.roomId lane.peerId

/-- What the queue counts. -/
def load (lane : Lane) : Nat := (lane.queue.map lane.kind.weight).sum

/-- The item that was taken and is not handled yet. -/
def inFlight (lane : Lane) : List Bytes :=
  match lane.drain with
  | .locked item _ => [item]
  | _ => []

/-- A new queue. -/
def fresh (kind : Kind) (roomId peerId : JsString) : Lane where
  kind := kind
  roomId := roomId
  peerId := peerId
  queue := []
  seen := []
  draining := false
  released := false
  aborted := false
  drain := .idle
  accepted := []
  handled := []
  dropped := []

/-- The end of the draining loop. -/
def stopped (lane : Lane) : Lane := { lane with draining := false, drain := .idle }

/-- The loop is not to go on. -/
def halted (lane : Lane) : Bool := lane.released || lane.aborted

/-- The memory of what was seen, with one more; it is emptied when it grows too large. -/
def remember (lane : Lane) (data : Bytes) : List (List Char) :=
  if (k32 data :: lane.seen).length > lane.kind.seenLimit then [] else k32 data :: lane.seen

/-- A receipt is remembered only while it is queued or in flight (handleMessageQueueing.ts:241-243). -/
def forget (lane : Lane) (item : Bytes) : Lane :=
  { lane with seen := if lane.kind = .receipts then lane.seen.erase (k32 item) else lane.seen }

/-- An item is put at the end of the queue. -/
def push (lane : Lane) (data : Bytes) : Lane :=
  { lane with
    seen := lane.remember data
    queue := lane.queue ++ [data]
    accepted := lane.accepted ++ [data] }

end Lane

/-! ## All queues -/

/-- The queues by number, `queuedBytesByEdge` and `queuedReceiptsByEdge`, and `processingLocks`. -/
structure Inbound where
  lanes : List Lane
  queued : Kind → JsString → Nat
  lock : PromiseLock JsString

namespace Inbound

/-- Nothing yet. -/
def start : Inbound := ⟨[], fun _ _ => 0, .empty⟩

/-- Keep a queue. -/
def put (s : Inbound) (i : Nat) (lane : Lane) : Inbound := { s with lanes := s.lanes.set i lane }

/-- `adjustQueuedBytes`, `adjustQueuedReceipts` (handleMessageQueueing.ts:123-138, 201-209). An
absent entry is zero. -/
def adjust (s : Inbound) (lane : Lane) (delta : Int) : Inbound :=
  { s with queued := fun kind k =>
      if kind = lane.kind ∧ k = lane.key then (max 0 ((s.queued kind k : Int) + delta)).toNat
      else s.queued kind k }

/-- The loop of `drain` and `drainReceipts` (handleMessageQueueing.ts:474-507, 229-245) up to its
next `await`. When it ends, the test that would start it again fails. -/
def drainLoop (s : Inbound) (i : Nat) (lane : Lane) : Inbound :=
  if lane.halted then s.put i lane.stopped
  else
    match lane.kind.take lane.queue with
    | none => s.put i lane.stopped
    | some (item, rest) =>
      let s := s.adjust lane (-(lane.kind.weight item : Int))
      let s := s.put i { lane with queue := rest, drain := .locked item s.lock.issued }
      { s with lock := s.lock.acquire lane.key }

/-- `drain`, `drainReceipts` from their beginning. -/
def startDrain (s : Inbound) (i : Nat) (lane : Lane) : Inbound :=
  if lane.draining || lane.halted then s.put i lane
  else s.drainLoop i { lane with draining := true }

/-- `enqueue` and `enqueueReceipt` (handleMessageQueueing.ts:528-586, 259-288). -/
def enqueueIn (s : Inbound) (i : Nat) (lane : Lane) (data : Bytes) : Inbound × Bool :=
  if lane.halted then (s, false)
  else if k32 data ∈ lane.seen then (s, true)
  else if lane.queue.length ≥ lane.kind.perQueue ∨
      s.queued lane.kind lane.key + lane.kind.weight data > lane.kind.perEdge then (s, false)
  else
    let s := s.adjust lane (lane.kind.weight data)
    (if lane.draining then s.put i (lane.push data) else s.startDrain i (lane.push data), true)

/-- `releaseQueuedMessageFrames`, `releaseQueuedReceipts` (handleMessageQueueing.ts:140-151,
211-220). -/
def releaseIn (s : Inbound) (i : Nat) (lane : Lane) : Inbound :=
  if lane.kind = .receipts ∧ lane.released = true then s
  else
    (s.adjust lane (-(lane.load : Int))).put i { lane with
      released := true
      queue := []
      seen := if lane.kind = .receipts then [] else lane.seen
      dropped := lane.dropped ++ lane.queue }

/-- `hasQueuedEdgeReceiveWork` (handleMessageQueueing.ts:55-63). -/
def hasQueuedEdgeReceiveWork (s : Inbound) (roomId peerId : JsString) : Bool :=
  decide (s.queued .frames (edgeQueueKey roomId peerId) > 0) ||
    (s.lock.tail (edgeQueueKey roomId peerId)).isSome

/-- The handler of this queue's item is running. -/
def Handling (s : Inbound) (i : Nat) : Prop :=
  ∃ lane item t x, s.lanes[i]? = some lane ∧ lane.drain = .locked item t ∧ s.lock.ticket t = some x ∧
    x.hold = .holding

end Inbound

/-! ## Runs -/

/-- What can happen: a channel opens, a frame or receipt of any length but zero arrives, the loop of a queue gets the
lock, a promise of the lock is settled, a handler ends or fails, a loop goes on, the channel is
aborted or its queue released. -/
inductive Event
  | opened (kind : Kind) (roomId peerId : JsString)
  | message (lane : Nat) (data : Bytes)
  | enter (lane : Nat)
  | settle (ticket : Nat)
  | finish (lane : Nat) (ok : Bool)
  | resume (lane : Nat)
  | abort (lane : Nat)
  | release (lane : Nat)

namespace Inbound

/-- The handler of an item ends (handleMessageQueueing.ts:170-178). -/
def finish (s : Inbound) (i : Nat) (lane : Lane) (ok : Bool) : Inbound :=
  match lane.drain with
  | .locked item t =>
    match s.lock.ticket t with
    | some x =>
      if x.hold = .holding then
        { s.put i { lane with drain := .resuming item ok, handled := lane.handled ++ [item] } with
          lock := s.lock.letGo t }
      else s
    | none => s
  | _ => s

/-- The loop goes on after the handler: a receipt is forgotten, and after a failure the loop is
left and, if there is more, started again (handleMessageQueueing.ts:239-255, 501-525). -/
def resume (s : Inbound) (i : Nat) (lane : Lane) : Inbound :=
  match lane.drain with
  | .resuming item ok =>
    let lane := lane.forget item
    if ok then s.drainLoop i lane
    else if lane.stopped.queue ≠ [] ∧ lane.halted = false then s.startDrain i lane.stopped
    else s.put i lane.stopped
  | _ => s

/-- What an event does to a queue. -/
def onLane (s : Inbound) (i : Nat) (f : Lane → Inbound) : Inbound :=
  match s.lanes[i]? with
  | some lane => f lane
  | none => s

/-- One event. -/
def step (event : Event) (s : Inbound) : Inbound :=
  match event with
  | .opened kind roomId peerId => { s with lanes := s.lanes ++ [.fresh kind roomId peerId] }
  | .message i data => s.onLane i fun lane =>
      if data ≠ [] then (s.enqueueIn i lane data).1 else s
  | .enter i => s.onLane i fun lane =>
      match lane.drain with
      | .locked _ t => { s with lock := s.lock.enter t }
      | _ => s
  | .settle t => { s with lock := s.lock.settle t }
  | .finish i ok => s.onLane i fun lane => s.finish i lane ok
  | .resume i => s.onLane i fun lane => s.resume i lane
  | .abort i => s.onLane i fun lane =>
      if lane.kind = .frames then s.put i { lane with aborted := true } else s
  | .release i => s.onLane i fun lane => s.releaseIn i lane

end Inbound

end Queueing

end P2Party
