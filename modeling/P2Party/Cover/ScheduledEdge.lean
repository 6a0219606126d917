import Mathlib.Data.Finset.Card
import P2Party.Base.Runs
import P2Party.Messages.ChunkFrame
import P2Party.Cover.Settlement

/-!
# The producers of an edge (`handlers/coverTransfer.ts`)

An edge with a cover runtime gives its scheduler two kinds of jobs. A scheduled send makes one
pass over the chunks of its message: every call of `nextCell` moves a cursor to the next chunk
that is not acknowledged and then seals it. The drain job takes the oldest pending receipt
out of the queue and then seals it. Both give up what they took when the seal fails.

`Edge` is the scheduler with its books (`Ledger`), the state of the producers, and what every
cell carries. A call of `nextCell` that has not returned is named by the generation of its
slot. The settlement callback that arms the drain job again is an event of its own.

- `Producer`, `ProducerCall`, `Edge`: the closures, their calls, the edge;
- `EdgeEvent`, `Edge.step`: what happens to it;
- `Edge.LosesNothing`: chunks and receipts are where they should be.
-/

namespace P2Party

open Base

namespace Cover

/-! ## The producers -/

/-- `MAX_PENDING_SCHEDULED_RECEIPTS` (coverTransfer.ts:31). -/
abbrev MAX_PENDING_SCHEDULED_RECEIPTS : Nat := 4096

/-- `PendingScheduledReceipt` (coverTransfer.ts:18-21); `serial` is the identity of the object. -/
structure Receipt where
  serial : Nat
  merkleRoot : Bytes
  token : Bytes
deriving DecidableEq

/-- What a cell carries. -/
inductive Content
  | chunk (index : Nat)
  | receipt (receipt : Receipt)
deriving DecidableEq

/-- The closure of a job: of `buildScheduledSendJob` with its cursor (coverTransfer.ts:175), or of
`ensureReceiptDrainJob`. -/
inductive Producer
  | send (totalChunks cursor : Nat)
  | drain
deriving DecidableEq

/-- `nextRealIndex` (coverTransfer.ts:176-184), with so many indices left: the index, the cursor
behind it, and the acknowledged indices it passed. -/
def nextRealIndex (acked : Finset Nat) : (left cursor : Nat) → Option Nat × Nat × List Nat
  | 0, cursor => (none, cursor, [])
  | left + 1, cursor =>
    if cursor ∈ acked then
      let (index, after, passed) := nextRealIndex acked left (cursor + 1)
      (index, after, cursor :: passed)
    else (some cursor, cursor + 1, [])

/-- A call of `nextCell` that has not returned, with what it took; `none` is about to return
`null`. -/
structure ProducerCall where
  generation : Nat
  job : Nat
  content : Option Content
deriving DecidableEq

/-- How the rest of a producer ends: with a cell, without the staged chunk
(handleSendMessage.ts:987), or with a throw. -/
inductive SealOutcome
  | cell (cell : Bytes)
  | missing
  | threw
deriving DecidableEq

/-- What `nextCell` returns for what it took (coverTransfer.ts:81-95, 190-200); a receipt has no
staged chunk to be missing. -/
def nextCellAnswer : Option Content → SealOutcome → Option (Except Unit (Option Bytes))
  | none, _ => some (.ok none)
  | some (.chunk _), .cell cell =>
    some (if cell.length = WIRE_CHUNK_FRAME_LEN then .ok (some cell) else .error ())
  | some (.chunk _), .missing => some (.ok none)
  | some (.chunk _), .threw => some (.error ())
  | some (.receipt _), .cell cell => some (.ok (some cell))
  | some (.receipt _), .missing => none
  | some (.receipt _), .threw => some (.error ())

/-! ## The edge -/

/-- An edge: the scheduler, the producer of every job, their calls, what the cells of every job
carry (as its book of produced cells has them), the chunks a job passed as acknowledged, the
queue of receipts (`ScheduledReceiptState`, coverTransfer.ts:23-27), every receipt that was
queued, those the flood bound displaced, and how jobs were settled. -/
structure Edge where
  ledger : Ledger
  producers : List Producer
  calls : List ProducerCall
  contents : Nat → List Content
  passed : Nat → List Nat
  pending : List Receipt
  drainJob : Option Nat
  receipts : List Receipt
  displaced : List Receipt
  completed : List Nat
  exhausted : List Nat

/-- What happens to an edge. -/
inductive EdgeEvent
  | start (now : Rat)
  | suspend (now : Rat)
  | resume (now : Rat)
  /-- The timer, and what `getAckedChunks` returns to each job. -/
  | timer (firedAt : Rat) (acked : Nat → Finset Nat)
  /-- The rest of a producer ends. -/
  | produced (task : SlotTask) (outcome : SealOutcome) (now : Rat)
  /-- A lane answers. -/
  | sent (task : SlotTask) (answer : Except Unit Bool) (now : Rat)
  /-- `enqueueScheduledSend` is called. -/
  | send (channelMessageLabel : JsString) (totalChunks : Nat)
  /-- `queueScheduledReceipt` is called; the label is random. -/
  | receipt (merkleRoot token : Bytes) (laneLabel : JsString)
  /-- The drain job was settled, and its callback runs. -/
  | settled (laneLabel : JsString)

/-- The jobs that an event settled. -/
def newlySettled (s s' : CoverScheduler) (p : JobRuntime → Bool) : List Nat :=
  (List.range s.jobs.runtimes.length).filter fun n =>
    (s.jobs.get n).any (fun r => !r.settled) && (s'.jobs.get n).any fun r => r.settled && p r

/-- The slot that started in an event, if it asks a job for a cell. -/
def newlyAsked (s s' : CoverScheduler) : Option (Nat × Nat) :=
  match s'.tasks[s.tasks.length]? with
  | some task =>
    match task.stage with
    | .nextCell n _ => some (n, task.generation)
    | _ => none
  | none => none

namespace Edge

variable (options : CoverSchedulerOptions)

/-- An edge whose scheduler was just made. -/
def new (s : CoverScheduler) : Edge where
  ledger := .new s
  producers := []
  calls := []
  contents := fun _ => []
  passed := fun _ => []
  pending := []
  drainJob := none
  receipts := []
  displaced := []
  completed := []
  exhausted := []

/-- The scheduler of an edge. -/
abbrev scheduler (e : Edge) : CoverScheduler := e.ledger.scheduler

/-- `nextCell` of a job is called by a slot: it takes its content at once. -/
def ask (acked : Finset Nat) (n generation : Nat) (e : Edge) : Edge :=
  match e.producers[n]? with
  | none => e
  | some (.send totalChunks cursor) =>
    let (index, after, passed) := nextRealIndex acked (totalChunks - cursor) cursor
    { e with
      producers := e.producers.set n (.send totalChunks after)
      calls := e.calls ++ [⟨generation, n, index.map .chunk⟩]
      passed := Function.update e.passed n (e.passed n ++ passed) }
  | some .drain =>
    match e.pending with
    | [] => { e with calls := e.calls ++ [⟨generation, n, none⟩] }
    | receipt :: pending =>
      { e with pending, calls := e.calls ++ [⟨generation, n, some (.receipt receipt)⟩] }

/-- The call of a slot. -/
def called (e : Edge) (task : SlotTask) : Option ProducerCall :=
  e.calls.find? fun call => call.generation = task.generation

/-- The answer that a slot gets. -/
def answer (e : Edge) (task : SlotTask) (outcome : SealOutcome) : Option (Except Unit (Option Bytes)) :=
  match task.stage with
  | .nextCell _ _ => (e.called task).bind fun call => nextCellAnswer call.content outcome
  | _ =>
    match outcome with
    | .cell cell => some (.ok (some cell))
    | _ => some (.error ())

/-- A job is enqueued with its producer, unless the scheduler throws. -/
def enqueue (job : CoverJob) (producer : Producer) (e : Edge) : Edge :=
  let ledger := e.ledger.step options (.enqueue job)
  { e with
    ledger
    producers := if ledger.scheduler.jobs.runtimes.length = e.scheduler.jobs.runtimes.length
      then e.producers else e.producers ++ [producer] }

/-- `ensureReceiptDrainJob` (coverTransfer.ts:67-111). -/
def ensureReceiptDrainJob (laneLabel : JsString) (e : Edge) : Edge :=
  let declared := min e.pending.length options.schedule.slotsPerLane
  if e.drainJob.isSome ∨ e.pending = [] ∨ declared = 0 then e
  else
    let n := e.scheduler.jobs.runtimes.length
    let e' := e.enqueue options ⟨laneLabel, .control, declared, none, false⟩ .drain
    { e' with drainJob := if e'.scheduler.jobs.runtimes.length = n then none else some n }

/-- `queueScheduledReceipt` (coverTransfer.ts:47-65). -/
def queueScheduledReceipt (merkleRoot token : Bytes) (laneLabel : JsString) (e : Edge) : Edge :=
  if merkleRoot.length ≠ 64 ∨ token.length ≠ 64 then e
  else
    let receipt : Receipt := ⟨e.receipts.length, merkleRoot, token⟩
    let pending := e.pending ++ [receipt]
    let excess := pending.length - MAX_PENDING_SCHEDULED_RECEIPTS
    ensureReceiptDrainJob options laneLabel { e with
      pending := pending.drop excess
      receipts := e.receipts ++ [receipt]
      displaced := e.displaced ++ pending.take excess }

/-- What an event does. -/
def step : EdgeEvent → Edge → Edge
  | .start now, e => { e with ledger := e.ledger.step options (.control (.start now)) }
  | .suspend now, e => { e with ledger := e.ledger.step options (.control (.suspend now)) }
  | .resume now, e => { e with ledger := e.ledger.step options (.control (.resume now)) }
  | .timer firedAt acked, e =>
    let ledger := e.ledger.step options (.control (.timer firedAt))
    let e' := { e with
      ledger
      exhausted := e.exhausted ++ newlySettled e.scheduler ledger.scheduler fun _ => true }
    match newlyAsked e.scheduler ledger.scheduler with
    | none => e'
    | some (n, generation) => e'.ask (acked n) n generation
  | .produced task outcome now, e =>
    match e.answer task outcome with
    | none => e
    | some answer =>
      let event : Event := .produced task answer now
      { e with
        ledger := e.ledger.step options event
        calls := if task ∈ e.scheduler.tasks ∧ task.stage.isSending = false
          then e.calls.filter fun call => call.generation ≠ task.generation else e.calls
        contents := match event.production e.scheduler, (e.called task).bind (·.content) with
          | some (n, _), some content => Function.update e.contents n (e.contents n ++ [content])
          | _, _ => e.contents }
  | .sent task answer now, e =>
    let ledger := e.ledger.step options (.sent task answer now)
    { e with
      ledger
      completed := e.completed ++ newlySettled e.scheduler ledger.scheduler (·.completed) }
  | .send channelMessageLabel totalChunks, e =>
    match buildScheduledSendJob options.schedule.slotsPerLane totalChunks channelMessageLabel with
    | .error _ => e
    | .ok job => e.enqueue options job (.send totalChunks 0)
  | .receipt merkleRoot token laneLabel, e => e.queueScheduledReceipt options merkleRoot token laneLabel
  | .settled laneLabel, e =>
    match e.drainJob.bind e.scheduler.jobs.get with
    | none => e
    | some r => if r.settled then ensureReceiptDrainJob options laneLabel { e with drainJob := none } else e

/-! ## What the producers should do -/

/-- A content of a job is in a cell that the transport accepted: the books have the same entry at
its place. -/
def Delivered (e : Edge) (n : Nat) (content : Content) : Prop :=
  ∃ (k : Nat) (entry : Entry), (e.contents n)[k]? = some content ∧ (e.ledger.produced n)[k]? = some entry ∧
    (e.ledger.accepted n)[k]? = some entry

/-- A receipt is being sealed, or in a cell that a job or a slot still has to send. -/
def Held (e : Edge) (receipt : Receipt) : Prop :=
  (∃ call ∈ e.calls, call.content = some (.receipt receipt)) ∨
    ∃ (n k : Nat) (r : JobRuntime) (cell : Bytes), (e.contents n)[k]? = some (.receipt receipt) ∧
      e.scheduler.jobs.get n = some r ∧ r.settled = false ∧
      (e.ledger.produced n)[k]? = some (some r.sentCells, cell) ∧
      CellHeld e.scheduler.jobs e.scheduler.tasks n r.sentCells cell

/-- A send is completed only when every chunk it did not pass as acknowledged was accepted, it
runs out of capacity only when such a chunk was not, and a receipt that the flood bound
spared is pending, held or accepted. -/
structure LosesNothing (e : Edge) : Prop where
  completed : ∀ n ∈ e.completed, ∀ totalChunks cursor, e.producers[n]? = some (.send totalChunks cursor) →
    ∀ i < totalChunks, i ∉ e.passed n → e.Delivered n (.chunk i)
  exhausted : ∀ n ∈ e.exhausted, ∀ totalChunks cursor, e.producers[n]? = some (.send totalChunks cursor) →
    ∃ i < totalChunks, i ∉ e.passed n ∧ ¬ e.Delivered n (.chunk i)
  receipts : ∀ receipt ∈ e.receipts, receipt ∉ e.displaced →
    receipt ∈ e.pending ∨ e.Held receipt ∨ ∃ n, e.Delivered n (.receipt receipt)

/-- The event of the scheduler that an event of the edge is, if it is an answer to a slot. -/
def answered (e : Edge) : EdgeEvent → Option Event
  | .produced task outcome now => (e.answer task outcome).map fun answer => .produced task answer now
  | .sent task answer now => some (.sent task answer now)
  | _ => none

/-- Answers come in turn; no chunk is acknowledged before its turn; a receipt that was taken is
sealed, for a job that is not settled; and no drain job reaches the end of a cycle with a cell
that is not sent. -/
structure Spared (event : EdgeEvent) (e : Edge) : Prop where
  inTurn : ∀ answer, e.answered event = some answer → answer.InTurn options e.scheduler
  unacked : ∀ firedAt acked, event = .timer firedAt acked → ∀ n totalChunks cursor,
    e.producers[n]? = some (.send totalChunks cursor) → ∀ i, cursor ≤ i → i < totalChunks → i ∉ acked n
  sealedReceipts : ∀ task outcome now call receipt, event = .produced task outcome now →
    e.called task = some call → call.content = some (.receipt receipt) → task ∈ e.scheduler.tasks →
    (∃ cell, outcome = .cell cell) ∧ ∀ r, e.scheduler.jobs.get call.job = some r → r.settled = false
  boundary : ∀ firedAt acked timer, event = .timer firedAt acked → e.scheduler.timer = some timer →
    timer.kind = .cycleBoundary → ∀ n ∈ e.scheduler.laneJobs, e.producers[n]? = some .drain →
    ∀ r cell, e.scheduler.jobs.get n = some r → r.settled = false →
      ¬ CellHeld e.scheduler.jobs e.scheduler.tasks n r.sentCells cell

/-! ## What holds between the events -/

/-- The chunk that a call has taken for a job. -/
def chunk? (n : Nat) (call : ProducerCall) : Option Nat :=
  if call.job = n then
    match call.content with
    | some (.chunk index) => some index
    | _ => none
  else none

/-- What a producer makes cells of. -/
def Makes : Producer → Content → Prop
  | .send _ _, .chunk _ => True
  | .drain, .receipt _ => True
  | _, _ => False

/-- The scheduler agrees with its books, with the producers of its jobs, and with what is known
of settled jobs. -/
structure Steady (ledger : Ledger) (producers : List Producer) (completed exhausted : List Nat) : Prop where
  sound : Sound ledger.scheduler
  booked : Booked ledger.scheduler.jobs ledger.scheduler.tasks ledger.produced ledger.accepted
  unfinished : Unfinished ledger.scheduler.jobs
  uncancelled : Uncancelled ledger.scheduler
  length : producers.length = ledger.scheduler.jobs.runtimes.length
  declared : ∀ n r totalChunks cursor, ledger.scheduler.jobs.get n = some r →
    producers[n]? = some (.send totalChunks cursor) → r.job.declaredCellCount = totalChunks
  completed : ∀ n ∈ completed, ∃ r, ledger.scheduler.jobs.get n = some r ∧ r.settled = true ∧
    (r.sentCells : Int) = r.job.declaredCellCount
  exhausted : ∀ n ∈ exhausted, ∃ r, ledger.scheduler.jobs.get n = some r ∧ r.settled = true ∧
    (r.sentCells : Int) < r.job.declaredCellCount

/-- Every chunk in front of the cursor of a send is in one place: with a call, or in a cell. -/
def Chunks (producers : List Producer) (calls : List ProducerCall) (contents : Nat → List Content) : Prop :=
  ∀ n totalChunks cursor, producers[n]? = some (.send totalChunks cursor) →
    cursor ≤ totalChunks ∧ ∃ indices : List Nat, contents n = indices.map .chunk ∧
      (indices ++ calls.filterMap (chunk? n)).Nodup ∧ ∀ i ∈ indices ++ calls.filterMap (chunk? n), i < cursor

/-- Every receipt that was not displaced is in the queue, with a call, or in a cell. -/
def Receipts (receipts displaced pending : List Receipt) (producers : List Producer)
    (calls : List ProducerCall) (contents : Nat → List Content) : Prop :=
  ∀ receipt ∈ receipts, receipt ∉ displaced →
    receipt ∈ pending ∨ (∃ call ∈ calls, call.content = some (.receipt receipt)) ∨
      ∃ n, producers[n]? = some .drain ∧ Content.receipt receipt ∈ contents n

/-- The edge agrees with its producers, its books and its queue. -/
structure Ok (e : Edge) : Prop where
  steady : Steady e.ledger e.producers e.completed e.exhausted
  waiting : ∀ call ∈ e.calls, ∃ task ∈ e.scheduler.tasks, task.generation = call.generation ∧
    ∃ job, task.stage = .nextCell call.job job
  single : (e.calls.map (·.generation)).Nodup
  taken : ∀ call ∈ e.calls, ∀ content, call.content = some content →
    ∃ producer, e.producers[call.job]? = some producer ∧ Makes producer content
  aligned : ∀ n, (e.contents n).length = (e.ledger.produced n).length
  chunks : Chunks e.producers e.calls e.contents
  passed : ∀ n, e.passed n = []
  receipts : Receipts e.receipts e.displaced e.pending e.producers e.calls e.contents
  flushed : ∀ n r, e.producers[n]? = some .drain → e.scheduler.jobs.get n = some r → r.settled = true →
    e.ledger.produced n = e.ledger.accepted n

/-! ## What it says of the producers -/

variable {options} {e : Edge} {ledger : Ledger} {producers : List Producer} {completed exhausted : List Nat}

/-- As many cells of a job were accepted as it has sent. -/
theorem Steady.accepted_length (h : Steady ledger producers completed exhausted) {n : Nat} {r : JobRuntime}
    (hr : ledger.scheduler.jobs.get n = some r) : (ledger.accepted n).length = r.sentCells := by
  have hlength := congrArg List.length (h.booked.inOrder n r hr)
  rwa [List.length_map, List.length_map, List.length_range] at hlength

/-- The content at a place in front of the accepted cells is delivered. -/
theorem Ok.delivered (h : Ok e) {n k : Nat} {content : Content} (hk : (e.contents n)[k]? = some content)
    (hlt : k < (e.ledger.accepted n).length) : e.Delivered n content := by
  obtain ⟨rest, hrest⟩ := h.steady.booked.once n
  have hentry := List.getElem?_eq_getElem hlt
  refine ⟨k, _, hk, ?_, hentry⟩
  rw [← hrest, List.getElem?_append_left hlt]
  exact hentry

/-- A job that sent all its cells sent every chunk. -/
theorem Ok.all_delivered (h : Ok e) {n totalChunks cursor : Nat} {r : JobRuntime}
    (hproducer : e.producers[n]? = some (.send totalChunks cursor)) (hr : e.scheduler.jobs.get n = some r)
    (hall : (r.sentCells : Int) = r.job.declaredCellCount) :
    ∀ i < totalChunks, e.Delivered n (.chunk i) := by
  intro i hi
  obtain ⟨hcursor, indices, hcontents, hnodup, hbound⟩ := h.chunks n totalChunks cursor hproducer
  rw [h.steady.declared n r totalChunks cursor hr hproducer] at hall
  have haccepted := h.steady.accepted_length hr
  have hlength : indices.length = (e.ledger.produced n).length := by
    rw [← h.aligned n, hcontents, List.length_map]
  have hle := (h.steady.booked.once n).length_le
  have hnodup : indices.Nodup := (List.nodup_append.mp hnodup).1
  have hsub : indices ⊆ List.range totalChunks := fun j hj =>
    List.mem_range.mpr (Nat.lt_of_lt_of_le (hbound j (List.mem_append_left _ hj)) hcursor)
  -- as many different chunks as there are
  have hperm : indices.Perm (List.range totalChunks) := by
    refine (hnodup.subperm hsub).perm_of_length_le ?_
    rw [List.length_range]
    omega
  have hlengthPerm := hperm.length_eq
  rw [List.length_range] at hlengthPerm
  obtain ⟨k, hk⟩ := List.mem_iff_getElem?.mp (hperm.mem_iff.mpr (List.mem_range.mpr hi))
  obtain ⟨hlt, -⟩ := List.getElem?_eq_some_iff.mp hk
  refine h.delivered (k := k) ?_ (by omega)
  rw [hcontents, List.getElem?_map, hk]
  rfl

/-- A job that did not send all its cells did not send every chunk. -/
theorem Ok.some_undelivered (h : Ok e) {n totalChunks cursor : Nat} {r : JobRuntime}
    (hproducer : e.producers[n]? = some (.send totalChunks cursor)) (hr : e.scheduler.jobs.get n = some r)
    (hless : (r.sentCells : Int) < r.job.declaredCellCount) :
    ∃ i < totalChunks, ¬ e.Delivered n (.chunk i) := by
  by_contra hall
  push Not at hall
  rw [h.steady.declared n r totalChunks cursor hr hproducer, ← h.steady.accepted_length hr] at hless
  -- the chunks are different and all of them are in front of the accepted cells
  have hsub : (List.range totalChunks).map Content.chunk ⊆ (e.contents n).take (e.ledger.accepted n).length := by
    intro content hcontent
    obtain ⟨i, hi, rfl⟩ := List.mem_map.mp hcontent
    obtain ⟨k, entry, hk, -, hentry⟩ := hall i (List.mem_range.mp hi)
    obtain ⟨hlt, -⟩ := List.getElem?_eq_some_iff.mp hentry
    refine List.mem_iff_getElem?.mpr ⟨k, ?_⟩
    rw [List.getElem?_take_of_lt hlt]
    exact hk
  have hnodup : ((List.range totalChunks).map Content.chunk).Nodup :=
    List.nodup_range.map fun i j hij => Content.chunk.inj hij
  have hlength := (hnodup.subperm hsub).length_le
  rw [List.length_map, List.length_range, List.length_take] at hlength
  omega

/-- A receipt in a cell of a drain job is delivered or still held. -/
theorem Ok.receipt_kept (h : Ok e) {n : Nat} {receipt : Receipt} (hproducer : e.producers[n]? = some .drain)
    (hmem : Content.receipt receipt ∈ e.contents n) : e.Held receipt ∨ e.Delivered n (.receipt receipt) := by
  obtain ⟨k, hk⟩ := List.mem_iff_getElem?.mp hmem
  obtain ⟨hlt, -⟩ := List.getElem?_eq_some_iff.mp hk
  rw [h.aligned n] at hlt
  by_cases haccepted : k < (e.ledger.accepted n).length
  · exact .inr (h.delivered hk haccepted)
  have hdrain : n < e.scheduler.jobs.runtimes.length := by
    obtain ⟨hn, -⟩ := List.getElem?_eq_some_iff.mp hproducer
    exact h.steady.length ▸ hn
  have hr : e.scheduler.jobs.get n = some e.scheduler.jobs.runtimes[n] := List.getElem?_eq_getElem hdrain
  cases hlive : e.scheduler.jobs.runtimes[n].settled with
  | true =>
    rw [h.flushed n _ hproducer hr hlive] at hlt
    exact absurd hlt haccepted
  | false =>
    rcases h.steady.booked.kept n _ hr hlive with hsame | ⟨cell, hheld, hproduced⟩
    · rw [hsame] at hlt
      exact absurd hlt haccepted
    · rw [hproduced, List.length_append, List.length_singleton] at hlt
      obtain rfl : k = (e.ledger.accepted n).length := by omega
      refine .inl (.inr ⟨n, _, _, cell, hk, hr, hlive, ?_, hheld⟩)
      rw [hproduced]
      exact List.getElem?_concat_length

/-- An edge that agrees with its producers loses nothing. -/
theorem Ok.losesNothing (h : Ok e) : e.LosesNothing := by
  constructor
  · intro n hn totalChunks cursor hproducer i hi _
    obtain ⟨r, hr, -, hall⟩ := h.steady.completed n hn
    exact h.all_delivered hproducer hr hall i hi
  · intro n hn totalChunks cursor hproducer
    obtain ⟨r, hr, -, hless⟩ := h.steady.exhausted n hn
    obtain ⟨i, hi, hundelivered⟩ := h.some_undelivered hproducer hr hless
    refine ⟨i, hi, ?_, hundelivered⟩
    rw [h.passed n]
    exact List.not_mem_nil
  · intro receipt hreceipt hdisplaced
    rcases h.receipts receipt hreceipt hdisplaced with hpending | hcall | ⟨n, hproducer, hmem⟩
    · exact .inl hpending
    · exact .inr (.inl (.inl hcall))
    · rcases h.receipt_kept hproducer hmem with hheld | hdelivered
      · exact .inr (.inl hheld)
      · exact .inr (.inr ⟨n, hdelivered⟩)

/-! ## A step of the scheduler -/

theorem Steady.step (h : Steady ledger producers completed exhausted) {event : Event} (hplain : event.Plain)
    (hevent : ∀ job, event ≠ .enqueue job) (hturn : event.InTurn options ledger.scheduler) :
    Steady (ledger.step options event) producers completed exhausted := by
  have hlasts := @step_lasts options _ h.sound event hevent
  constructor
  · exact step_sound h.sound event
  · exact ledger.step_booked h.sound h.booked hturn
  · exact step_unfinished h.sound h.unfinished event
  · exact step_uncancelled h.sound h.uncancelled hplain
  · exact h.length.trans hlasts.length.symm
  · intro n r' totalChunks cursor hr' hproducer
    obtain ⟨r, hr, hjob⟩ := hlasts.origin hr'
    rw [← hjob]
    exact h.declared n r totalChunks cursor hr hproducer
  · intro n hn
    obtain ⟨r, hr, hsettled, hall⟩ := h.completed n hn
    exact ⟨r, step_frozen h.sound event hr hsettled, hsettled, hall⟩
  · intro n hn
    obtain ⟨r, hr, hsettled, hless⟩ := h.exhausted n hn
    exact ⟨r, step_frozen h.sound event hr hsettled, hsettled, hless⟩

/-- A job that the scheduler did not have has nothing in the books. -/
theorem Ok.nothing (h : Ok e) {n : Nat} (hn : e.scheduler.jobs.get n = none) :
    e.contents n = [] ∧ e.calls.filterMap (chunk? n) = [] := by
  constructor
  · refine List.length_eq_zero_iff.mp ?_
    rw [h.aligned n, (h.steady.booked.fresh n hn).1]
    rfl
  · refine List.filterMap_eq_nil_iff.mpr fun call hcall => ?_
    obtain ⟨task, htask, -, job, hstage⟩ := h.waiting call hcall
    obtain ⟨index, r, -, hr, -⟩ := (h.steady.booked.slots task htask).asked call.job job hstage
    refine if_neg ?_
    rintro rfl
    rw [hn] at hr
    cases hr

/-- An event of the scheduler that enqueues nothing; the calls are some of the old ones, and the
slots of these are not answered. -/
theorem Ok.after (h : Ok e) {event : Event} (hplain : event.Plain) (hevent : ∀ job, event ≠ .enqueue job)
    (hturn : event.InTurn options e.scheduler) {calls : List ProducerCall} {contents : Nat → List Content}
    (hcalls : calls.Sublist e.calls)
    (hwaits : ∀ call ∈ calls, ∀ task ∈ e.scheduler.tasks, task.generation = call.generation →
      ∀ answer now, event ≠ .produced task answer now)
    (haligned : ∀ n, (contents n).length = ((e.ledger.step options event).produced n).length)
    (hchunks : Chunks e.producers calls contents)
    (hreceipts : Receipts e.receipts e.displaced e.pending e.producers calls contents)
    (hflushed : ∀ n r, e.producers[n]? = some .drain →
      (e.ledger.step options event).scheduler.jobs.get n = some r → r.settled = true →
      (e.ledger.step options event).produced n = (e.ledger.step options event).accepted n) :
    Ok { e with ledger := e.ledger.step options event, calls, contents } where
  steady := h.steady.step hplain hevent hturn
  waiting call hcall := by
    obtain ⟨task, htask, hgeneration, job, hstage⟩ := h.waiting call (hcalls.subset hcall)
    exact ⟨task, step_waits h.steady.sound htask hstage (hwaits call hcall task htask hgeneration), hgeneration, job, hstage⟩
  single := (hcalls.map _).nodup h.single
  taken call hcall := h.taken call (hcalls.subset hcall)
  aligned := haligned
  chunks := hchunks
  passed := h.passed
  receipts := hreceipts
  flushed := hflushed

/-- An event that is no answer of a producer leaves the book of produced cells. -/
theorem production_of_other {event : Event} (hevent : ∀ task answer now, event ≠ .produced task answer now)
    (s : CoverScheduler) : event.production s = none := by
  unfold Event.production
  split
  · exact absurd rfl (hevent _ _ _)
  · rfl

/-- An event that is neither an answer of a producer nor an `enqueue`. -/
theorem Ok.advance (h : Ok e) {event : Event} (hplain : event.Plain) (hevent : ∀ job, event ≠ .enqueue job)
    (hother : ∀ task answer now, event ≠ .produced task answer now) (hturn : event.InTurn options e.scheduler)
    (hflushed : ∀ n r, e.producers[n]? = some .drain →
      (e.ledger.step options event).scheduler.jobs.get n = some r → r.settled = true →
      e.ledger.produced n = (e.ledger.step options event).accepted n) :
    Ok { e with ledger := e.ledger.step options event } := by
  have hproduced : (e.ledger.step options event).produced = e.ledger.produced :=
    congrArg e.ledger.produced.write (production_of_other hother e.scheduler)
  refine h.after hplain hevent hturn (.refl _) (fun _ _ task _ _ => hother task) ?_ h.chunks h.receipts ?_
  · intro n
    rw [hproduced]
    exact h.aligned n
  · intro n r hproducer hr hsettled
    rw [hproduced]
    exact hflushed n r hproducer hr hsettled

/-- A control event that settles no drain job with a cell. -/
theorem Ok.control (h : Ok e) {control : Control} (hplain : (Event.control control).Plain)
    (hsettles : ∀ n r r', e.producers[n]? = some .drain → e.scheduler.jobs.get n = some r → r.settled = false →
      (Cover.step options (.control control) e.scheduler).jobs.get n = some r' → r'.settled = true →
      ∀ cell, ¬ CellHeld e.scheduler.jobs e.scheduler.tasks n r.sentCells cell) :
    Ok { e with ledger := e.ledger.step options (.control control) } := by
  have hevent : ∀ job, Event.control control ≠ .enqueue job := fun _ heq => Event.noConfusion heq
  have hother : ∀ task answer now, Event.control control ≠ .produced task answer now :=
    fun _ _ _ heq => Event.noConfusion heq
  refine h.advance hplain hevent hother trivial fun n r' hproducer hr' hsettled => ?_
  show e.ledger.produced n = e.ledger.accepted n
  obtain ⟨r, hr, -⟩ := (@control_carries options _ h.steady.sound control).origin hr'
  by_cases hlive : r.settled = true
  · exact h.flushed n r hproducer hr hlive
  · have hlive : r.settled = false := (Bool.not_eq_true _).mp hlive
    rcases h.steady.booked.kept n r hr hlive with hsame | ⟨cell, hheld, -⟩
    · exact hsame
    · exact absurd hheld (hsettles n r r' hproducer hr hlive hr' hsettled cell)

/-- A control event that keeps the mark of every job. -/
theorem Ok.unsettling (h : Ok e) {control : Control} (hplain : (Event.control control).Plain)
    (hfield : ∀ n b, Field (·.settled) n b e.scheduler →
      Field (·.settled) n b (Cover.step options (.control control) e.scheduler)) :
    Ok { e with ledger := e.ledger.step options (.control control) } := by
  refine h.control hplain fun n r r' _ hr hlive hr' hsettled => ?_
  have hsame := hfield n (some false) ((Jobs.field_of_get hr).trans (congrArg some hlive))
  have hsame := (Jobs.field_of_get hr').symm.trans hsame
  rw [hsettled] at hsame
  cases hsame

theorem mem_newlySettled {s s' : CoverScheduler} {p : JobRuntime → Bool} {n : Nat} :
    n ∈ newlySettled s s' p ↔ (∃ r, s.jobs.get n = some r ∧ r.settled = false) ∧
      ∃ r, s'.jobs.get n = some r ∧ r.settled = true ∧ p r = true := by
  unfold newlySettled
  rw [List.mem_filter, List.mem_range, Bool.and_eq_true, Option.any_eq_true, Option.any_eq_true]
  constructor
  · rintro ⟨-, ⟨r, hr, hlive⟩, r', hr', hsettled⟩
    exact ⟨⟨r, hr, (Bool.not_eq_true' _).mp hlive⟩, r', hr', Bool.and_eq_true_iff.mp hsettled⟩
  · rintro ⟨⟨r, hr, hlive⟩, r', hr', hsettled⟩
    refine ⟨?_, ⟨r, hr, (Bool.not_eq_true' _).mpr hlive⟩, r', hr', Bool.and_eq_true_iff.mpr hsettled⟩
    obtain ⟨hlt, -⟩ := List.getElem?_eq_some_iff.mp hr
    exact hlt

/-- What becomes known of settled jobs. -/
theorem Ok.settle (h : Ok e) {completed exhausted : List Nat}
    (hcompleted : ∀ n ∈ completed, ∃ r, e.scheduler.jobs.get n = some r ∧ r.settled = true ∧
      (r.sentCells : Int) = r.job.declaredCellCount)
    (hexhausted : ∀ n ∈ exhausted, ∃ r, e.scheduler.jobs.get n = some r ∧ r.settled = true ∧
      (r.sentCells : Int) < r.job.declaredCellCount) :
    Ok { e with completed := e.completed ++ completed, exhausted := e.exhausted ++ exhausted } where
  steady := { h.steady with
    completed := fun n hn => (List.mem_append.mp hn).elim (h.steady.completed n) (hcompleted n)
    exhausted := fun n hn => (List.mem_append.mp hn).elim (h.steady.exhausted n) (hexhausted n) }
  waiting := h.waiting
  single := h.single
  taken := h.taken
  aligned := h.aligned
  chunks := h.chunks
  passed := h.passed
  receipts := h.receipts
  flushed := h.flushed

/-! ## A call of `nextCell` -/

/-- No index is acknowledged: the next one is the cursor. -/
theorem nextRealIndex_unacked {acked : Finset Nat} {left cursor : Nat}
    (h : ∀ i, cursor ≤ i → i < cursor + left → i ∉ acked) :
    nextRealIndex acked left cursor = if left = 0 then (none, cursor, []) else (some cursor, cursor + 1, []) := by
  cases left with
  | zero => rfl
  | succ left =>
    rw [if_neg (Nat.succ_ne_zero left)]
    exact if_neg (h cursor (Nat.le_refl _) (by omega))

/-- A producer that goes on with the same kind is still the producer of what it took. -/
theorem drain_set {n : Nat} {totalChunks cursor after : Nat} (hproducer : producers[n]? = some (.send totalChunks cursor))
    (m : Nat) : (producers.set n (.send totalChunks after))[m]? = some .drain ↔ producers[m]? = some .drain := by
  obtain ⟨hlt, -⟩ := List.getElem?_eq_some_iff.mp hproducer
  by_cases hm : m = n
  · subst hm
    rw [List.getElem?_set_self hlt, hproducer]
    exact ⟨nofun, nofun⟩
  · rw [List.getElem?_set_ne fun h => hm h.symm]

/-- A slot that waits for `nextCell` and has no call yet. -/
structure Asking (e : Edge) (n generation : Nat) : Prop where
  slot : ∃ task ∈ e.scheduler.tasks, task.generation = generation ∧ ∃ job, task.stage = .nextCell n job
  fresh : ∀ call ∈ e.calls, call.generation ≠ generation

namespace Asking

variable {n generation : Nat}

theorem waiting (hasking : e.Asking n generation) (h : Ok e) (content : Option Content) :
    ∀ call ∈ e.calls ++ [⟨generation, n, content⟩], ∃ task ∈ e.scheduler.tasks,
      task.generation = call.generation ∧ ∃ job, task.stage = .nextCell call.job job := by
  intro call hcall
  rcases List.mem_append.mp hcall with hcall | hcall
  · exact h.waiting call hcall
  · rw [List.mem_singleton.mp hcall]
    exact hasking.slot

theorem single (hasking : e.Asking n generation) (h : Ok e) (content : Option Content) :
    ((e.calls ++ [(⟨generation, n, content⟩ : ProducerCall)]).map (·.generation)).Nodup := by
  rw [List.map_append]
  refine List.nodup_append.mpr ⟨h.single, List.nodup_singleton _, fun a ha b hb hab => ?_⟩
  obtain ⟨call, hcall, rfl⟩ := List.mem_map.mp ha
  rw [List.mem_singleton.mp hb] at hab
  exact hasking.fresh call hcall hab

end Asking

theorem chunk_of_ne {n m generation : Nat} {content : Option Content} (hne : n ≠ m) :
    chunk? m ⟨generation, n, content⟩ = none := if_neg hne

theorem chunk_of_self {n generation : Nat} (index : Option Nat) :
    chunk? n ⟨generation, n, index.map .chunk⟩ = index := by
  unfold chunk?
  rw [if_pos rfl]
  cases index <;> rfl

/-- A send takes the chunk at its cursor, if there is one. -/
theorem Ok.askSend (h : Ok e) (index : Option Nat) {n generation totalChunks cursor after : Nat}
    (hasking : e.Asking n generation) (hproducer : e.producers[n]? = some (.send totalChunks cursor))
    (hnext : index = none ∧ after = cursor ∨ index = some cursor ∧ after = cursor + 1 ∧ cursor < totalChunks) :
    Ok { e with
      producers := e.producers.set n (.send totalChunks after)
      calls := e.calls ++ [⟨generation, n, index.map .chunk⟩] } := by
  obtain ⟨hlt, -⟩ := List.getElem?_eq_some_iff.mp hproducer
  have hdrain := @drain_set e.producers n totalChunks cursor after hproducer
  refine ⟨{ h.steady with length := ?_, declared := ?_ }, hasking.waiting h _, hasking.single h _, ?_, h.aligned, ?_,
    h.passed, ?_, fun m r hm => h.flushed m r ((hdrain m).mp hm)⟩
  · rw [List.length_set]
    exact h.steady.length
  · intro m r totalChunks' cursor' hr hm
    by_cases hmn : m = n
    · subst hmn
      rw [List.getElem?_set_self hlt] at hm
      cases hm
      exact h.steady.declared m r _ _ hr hproducer
    · rw [List.getElem?_set_ne fun h => hmn h.symm] at hm
      exact h.steady.declared m r _ _ hr hm
  · intro call hcall content hcontent
    rcases List.mem_append.mp hcall with hcall | hcall
    · obtain ⟨producer, hcaller, hmakes⟩ := h.taken call hcall content hcontent
      by_cases hmn : call.job = n
      · rw [hmn] at hcaller ⊢
        rw [hproducer] at hcaller
        cases hcaller
        refine ⟨_, List.getElem?_set_self hlt, ?_⟩
        cases content with
        | chunk i => trivial
        | receipt receipt => exact hmakes
      · refine ⟨producer, ?_, hmakes⟩
        rw [List.getElem?_set_ne fun h => hmn h.symm]
        exact hcaller
    · rw [List.mem_singleton.mp hcall] at hcontent ⊢
      obtain ⟨i, -, rfl⟩ := Option.map_eq_some_iff.mp hcontent
      exact ⟨_, List.getElem?_set_self hlt, trivial⟩
  · intro m totalChunks' cursor' hm
    rw [List.filterMap_append, List.filterMap_cons, List.filterMap_nil]
    by_cases hmn : m = n
    · subst hmn
      rw [List.getElem?_set_self hlt] at hm
      cases hm
      obtain ⟨hcursor, indices, hcontents, hnodup, hbound⟩ := h.chunks m totalChunks cursor hproducer
      rw [chunk_of_self]
      rcases hnext with ⟨rfl, rfl⟩ | ⟨rfl, rfl, hroom⟩
      · rw [List.append_nil]
        exact ⟨hcursor, indices, hcontents, hnodup, hbound⟩
      · -- the chunk at the cursor is a new one
        refine ⟨hroom, indices, hcontents, ?_, fun i hi => ?_⟩
        · rw [← List.append_assoc]
          refine List.nodup_append.mpr ⟨hnodup, List.nodup_singleton _, fun i hi j hj hij => ?_⟩
          rw [List.mem_singleton.mp hj] at hij
          exact absurd hij (Nat.ne_of_lt (hbound i hi))
        · rw [← List.append_assoc] at hi
          rcases List.mem_append.mp hi with hi | hi
          · exact Nat.lt_succ_of_lt (hbound i hi)
          · rw [List.mem_singleton.mp hi]
            exact Nat.lt_succ_self cursor
    · rw [List.getElem?_set_ne fun h => hmn h.symm] at hm
      rw [chunk_of_ne fun h => hmn h.symm, List.append_nil]
      exact h.chunks m totalChunks' cursor' hm
  · intro receipt hreceipt hdisplaced
    rcases h.receipts receipt hreceipt hdisplaced with hpending | ⟨call, hcall, hcontent⟩ | ⟨m, hm, hmem⟩
    · exact .inl hpending
    · exact .inr (.inl ⟨call, List.mem_append_left _ hcall, hcontent⟩)
    · exact .inr (.inr ⟨m, (hdrain m).mpr hm, hmem⟩)

/-- The drain job takes a receipt that is pending, or none. -/
theorem Ok.askDrain (h : Ok e) (taken : Option Receipt) {n generation : Nat} (hasking : e.Asking n generation)
    (hproducer : e.producers[n]? = some .drain) {pending : List Receipt}
    (hpending : e.pending = taken.toList ++ pending) :
    Ok { e with pending, calls := e.calls ++ [⟨generation, n, taken.map .receipt⟩] } := by
  refine ⟨h.steady, hasking.waiting h _, hasking.single h _, ?_, h.aligned, ?_, h.passed, ?_, h.flushed⟩
  · intro call hcall content hcontent
    rcases List.mem_append.mp hcall with hcall | hcall
    · exact h.taken call hcall content hcontent
    · rw [List.mem_singleton.mp hcall] at hcontent ⊢
      obtain ⟨receipt, -, rfl⟩ := Option.map_eq_some_iff.mp hcontent
      exact ⟨.drain, hproducer, trivial⟩
  · intro m totalChunks cursor hm
    have hne : n ≠ m := by
      rintro rfl
      rw [hproducer] at hm
      cases hm
    rw [List.filterMap_append, List.filterMap_cons, chunk_of_ne hne, List.filterMap_nil, List.append_nil]
    exact h.chunks m totalChunks cursor hm
  · intro receipt hreceipt hdisplaced
    rcases h.receipts receipt hreceipt hdisplaced with hmem | ⟨call, hcall, hcontent⟩ | hcell
    · rw [hpending] at hmem
      rcases List.mem_append.mp hmem with hmem | hmem
      · refine .inr (.inl ⟨_, List.mem_append_right _ (List.mem_singleton_self _), ?_⟩)
        rw [Option.mem_toList.mp hmem]
        rfl
      · exact .inl hmem
    · exact .inr (.inl ⟨call, List.mem_append_left _ hcall, hcontent⟩)
    · exact .inr (.inr hcell)

/-- A slot asks a producer. -/
theorem Ok.ask (h : Ok e) {n generation : Nat} (hasking : e.Asking n generation) {acked : Finset Nat}
    (hunacked : ∀ totalChunks cursor, e.producers[n]? = some (.send totalChunks cursor) →
      ∀ i, cursor ≤ i → i < totalChunks → i ∉ acked) : Ok (e.ask acked n generation) := by
  unfold Edge.ask
  split
  · exact h
  · rename_i totalChunks cursor hproducer
    obtain ⟨hcursor, -⟩ := h.chunks n totalChunks cursor hproducer
    have hnext := @nextRealIndex_unacked acked (totalChunks - cursor) cursor fun i hle hlt =>
      hunacked totalChunks cursor hproducer i hle (by omega)
    have hpassed : Function.update e.passed n (e.passed n ++ []) = e.passed := by
      rw [List.append_nil, Function.update_eq_self]
    by_cases hend : totalChunks - cursor = 0
    · rw [hnext, if_pos hend]
      dsimp only
      rw [hpassed]
      exact h.askSend none hasking hproducer (.inl ⟨rfl, rfl⟩)
    · rw [hnext, if_neg hend]
      dsimp only
      rw [hpassed]
      exact h.askSend (some cursor) hasking hproducer (.inr ⟨rfl, rfl, by omega⟩)
  · rename_i hproducer
    split
    · exact h.askDrain none hasking hproducer rfl
    · rename_i receipt pending hpending
      exact h.askDrain (some receipt) hasking hproducer hpending

/-! ## The timer -/

/-- The slot that a timer started asks for the first time. -/
theorem Ok.asking (h : Ok e) {firedAt : Rat} {n generation : Nat}
    (hasked : newlyAsked e.scheduler (Cover.step options (.control (.timer firedAt)) e.scheduler) = some (n, generation)) :
    Asking { e with ledger := e.ledger.step options (.control (.timer firedAt)) } n generation := by
  have hnone : ∀ s' : CoverScheduler, s'.tasks = e.scheduler.tasks → newlyAsked e.scheduler s' = none := by
    intro s' htasks
    unfold newlyAsked
    rw [htasks, List.getElem?_eq_none (Nat.le_refl _)]
  rcases @timerFired_leads options _ firedAt h.steady.sound with hkept | hstarted
  · rw [show Cover.step options (.control (.timer firedAt)) e.scheduler =
      finalState ((timerFired options firedAt).run e.scheduler) from rfl, hnone _ hkept.tasks] at hasked
    cases hasked
  · obtain ⟨generation', slot, serial, laneJob, -, htasks⟩ := hstarted.tasks
    unfold newlyAsked at hasked
    rw [show (Cover.step options (.control (.timer firedAt)) e.scheduler).tasks = _ from htasks,
      List.getElem?_concat_length] at hasked
    dsimp only at hasked
    split at hasked
    · rename_i job hstage
      cases hasked
      have hmem := List.mem_append_right e.ledger.scheduler.tasks (List.mem_singleton_self (SlotTask.mk generation slot serial
        (jobSlot (finalState ((timerFired options firedAt).run e.ledger.scheduler)).jobs laneJob)
        (requestForSlot (finalState ((timerFired options firedAt).run e.ledger.scheduler)).jobs laneJob slot)))
      rw [← htasks] at hmem
      refine ⟨⟨_, hmem, rfl, job, hstage⟩, fun call hcall hsame => ?_⟩
      obtain ⟨task, htask, hgeneration, -⟩ := h.waiting call hcall
      have hdistinct := hstarted.distinct
      rw [htasks, List.map_append] at hdistinct
      exact (List.nodup_append.mp hdistinct).2.2 _ (List.mem_map_of_mem htask) _ (List.mem_singleton_self _)
        (hgeneration.trans hsame)
    · cases hasked

/-- A timer that leaves no cell of a drain job at the end of a cycle. -/
theorem Ok.timer (h : Ok e) {firedAt : Rat} {acked : Nat → Finset Nat}
    (hspared : Spared options (.timer firedAt acked) e) : Ok (e.step options (.timer firedAt acked)) := by
  have hcarries := @control_carries options _ h.steady.sound (.timer firedAt)
  have hadvanced : Ok { e with ledger := e.ledger.step options (.control (.timer firedAt)) } := by
    refine h.control trivial fun n r r' hproducer hr hlive hr' hsettled cell hheld => ?_
    -- it was settled at the end of a cycle, on a lane
    have hend : ∃ timer, e.scheduler.timer = some timer ∧ timer.kind = .cycleBoundary ∧ n ∈ e.scheduler.laneJobs := by
      by_contra hnot
      have hfield := @timerFired_field options _ n (some false) (·.settled) unmoved_settled firedAt
        ((Jobs.field_of_get hr).trans (congrArg some hlive)) fun timer htimer hkind =>
          .inl fun hlane => hnot ⟨timer, htimer, hkind, hlane⟩
      have hfield := (Jobs.field_of_get hr').symm.trans hfield
      rw [hsettled] at hfield
      cases hfield
    obtain ⟨timer, htimer, hkind, hlane⟩ := hend
    exact hspared.boundary firedAt acked timer rfl htimer hkind n hlane hproducer r cell hr hlive hheld
  have hsettled : Ok { e with
      ledger := e.ledger.step options (.control (.timer firedAt))
      exhausted := e.exhausted ++ newlySettled e.scheduler
        (Cover.step options (.control (.timer firedAt)) e.scheduler) fun _ => true } := by
    have hmore := @Ok.settle _ hadvanced [] (newlySettled e.scheduler
      (Cover.step options (.control (.timer firedAt)) e.scheduler) fun _ => true) nofun fun n hn => ?_
    · rw [List.append_nil] at hmore
      exact hmore
    · obtain ⟨⟨r, hr, hlive⟩, r', hr', hsettled, -⟩ := mem_newlySettled.mp hn
      obtain ⟨q, hq, hcarried⟩ := hcarries.get hr
      rw [hr'] at hq
      cases hq
      refine ⟨r', hr', hsettled, ?_⟩
      rw [hcarried.job, hcarried.sentCells]
      exact h.steady.unfinished n r hr hlive
  unfold Edge.step
  dsimp only
  split
  · exact hsettled
  · rename_i n generation hasked
    have hasking := h.asking hasked
    exact hsettled.ask ⟨hasking.slot, hasking.fresh⟩ fun totalChunks cursor hproducer =>
      hspared.unacked firedAt acked rfl n totalChunks cursor hproducer

/-! ## The answer of a lane -/

theorem Ok.sent (h : Ok e) {task : SlotTask} {answer : Except Unit Bool} {now : Rat}
    (hturn : Event.InTurn options (.sent task answer now) e.scheduler) : Ok (e.step options (.sent task answer now)) := by
  have hevent : ∀ job, Event.sent task answer now ≠ .enqueue job := fun _ heq => Event.noConfusion heq
  have hother : ∀ other answer' now', Event.sent task answer now ≠ .produced other answer' now' :=
    fun _ _ _ heq => Event.noConfusion heq
  have hplain : (Event.sent task answer now).Plain := trivial
  have hsteady := h.steady.step hplain hevent hturn
  have hproduced : (e.ledger.step options (.sent task answer now)).produced = e.ledger.produced := rfl
  have hadvanced : Ok { e with ledger := e.ledger.step options (.sent task answer now) } := by
    refine h.advance hplain hevent hother hturn fun n r' hproducer hr' hsettled => ?_
    -- the accepted cells are the first ones, and as many
    have haccepted := hsteady.accepted_length hr'
    refine ((hsteady.booked.once n).eq_of_length_le ?_).symm
    rw [haccepted, hproduced]
    obtain ⟨r, hr, -⟩ := (@step_lasts options _ h.steady.sound _ hevent).origin hr'
    have hbefore := h.steady.accepted_length hr
    by_cases hlive : r.settled = true
    · rw [h.flushed n r hproducer hr hlive, hbefore]
      have hfrozen := @step_frozen options _ h.steady.sound (.sent task answer now) _ _ hr hlive
      rw [show (Cover.step options (.sent task answer now) e.scheduler).jobs.get n = some r' from hr'] at hfrozen
      cases hfrozen
      exact Nat.le_refl _
    · have hlive : r.settled = false := (Bool.not_eq_true _).mp hlive
      rw [(sent_settled h.steady.sound h.steady.uncancelled hr hlive hr' hsettled).1]
      rcases h.steady.booked.kept n r hr hlive with hsame | ⟨cell, -, hone⟩
      · rw [hsame, hbefore]
        exact Nat.le_succ _
      · rw [hone, List.length_append, hbefore]
        exact Nat.le_refl _
  have hmore := @Ok.settle _ hadvanced (newlySettled e.scheduler
    (Cover.step options (.sent task answer now) e.scheduler) (·.completed)) [] (fun n hn => ?_) nofun
  · rw [List.append_nil] at hmore
    exact hmore
  · obtain ⟨⟨r, hr, hlive⟩, r', hr', hsettled, -⟩ := mem_newlySettled.mp hn
    exact ⟨r', hr', hsettled, (sent_settled h.steady.sound h.steady.uncancelled hr hlive hr' hsettled).2⟩

/-! ## The answer of a producer -/

/-- The call of a slot and the calls of the others. -/
theorem filter_perm {calls : List ProducerCall} (hsingle : (calls.map (·.generation)).Nodup) {call : ProducerCall}
    (hmem : call ∈ calls) :
    calls.Perm (call :: calls.filter fun other => other.generation ≠ call.generation) := by
  induction calls with
  | nil => cases hmem
  | cons first calls ih =>
    rw [List.map_cons, List.nodup_cons] at hsingle
    obtain ⟨hfirst, hsingle⟩ := hsingle
    rcases List.mem_cons.mp hmem with rfl | hmem
    · have hothers : ∀ other ∈ calls, decide (other.generation ≠ call.generation) = true := by
        intro other hother
        refine decide_eq_true fun hsame => hfirst ?_
        rw [← hsame]
        exact List.mem_map_of_mem hother
      rw [List.filter_cons_of_neg (by simp), List.filter_eq_self.mpr hothers]
    · have hne : first.generation ≠ call.generation := fun hsame => hfirst (hsame ▸ List.mem_map_of_mem hmem)
      rw [List.filter_cons_of_pos (by simpa using hne)]
      exact ((ih hsingle hmem).cons first).trans (.swap call first _)

/-- The answer of a producer settles nothing. -/
theorem produced_settled {task : SlotTask} {answer : Except Unit (Option Bytes)} {now : Rat} {n : Nat} {r' : JobRuntime}
    {s : CoverScheduler} (hr' : (Cover.step options (.produced task answer now) s).jobs.get n = some r') :
    ∃ r, s.jobs.get n = some r ∧ r.settled = r'.settled := by
  have hfield : (Cover.step options (.produced task answer now) s).jobs.field (·.settled) n =
      s.jobs.field (·.settled) n := by
    unfold Cover.step
    dsimp only
    split
    · exact Field.cellProduced unmoved_settled (fun _ _ => ⟨rfl, rfl⟩) task answer now s rfl
    · rfl
  rw [Jobs.field_of_get hr'] at hfield
  exact Option.map_eq_some_iff.mp hfield.symm

/-- An answer that brings no cell of a job; the calls are those of the other slots, and no receipt
was with the call that ended. -/
theorem Ok.barren (h : Ok e) {task : SlotTask} {answer : Except Unit (Option Bytes)} {now : Rat}
    (hturn : Event.InTurn options (.produced task answer now) e.scheduler)
    (hproduction : Event.production (.produced task answer now) e.scheduler = none) {calls : List ProducerCall}
    (hcalls : calls.Sublist e.calls)
    (hothers : ∀ call ∈ calls, task ∈ e.scheduler.tasks → call.generation ≠ task.generation)
    (hreceipts : ∀ call ∈ e.calls, ∀ receipt, call.content = some (.receipt receipt) → call ∈ calls) :
    Ok { e with ledger := e.ledger.step options (.produced task answer now), calls } := by
  have hevent : ∀ job, Event.produced task answer now ≠ .enqueue job := fun _ heq => Event.noConfusion heq
  have hproduced : (e.ledger.step options (.produced task answer now)).produced = e.ledger.produced :=
    congrArg e.ledger.produced.write hproduction
  have hplain : (Event.produced task answer now).Plain := trivial
  refine h.after hplain hevent hturn hcalls ?_ ?_ ?_ ?_ ?_
  · intro call hcall other hother hgeneration answer' now' heq
    cases heq
    exact hothers call hcall hother hgeneration.symm
  · intro n
    rw [hproduced]
    exact h.aligned n
  · intro n totalChunks cursor hproducer
    obtain ⟨hcursor, indices, hcontents, hnodup, hbound⟩ := h.chunks n totalChunks cursor hproducer
    have hsub : (indices ++ calls.filterMap (chunk? n)).Sublist (indices ++ e.calls.filterMap (chunk? n)) :=
      (hcalls.filterMap _).append_left indices
    exact ⟨hcursor, indices, hcontents, hsub.nodup hnodup, fun i hi => hbound i (hsub.subset hi)⟩
  · intro receipt hreceipt hdisplaced
    rcases h.receipts receipt hreceipt hdisplaced with hpending | ⟨call, hcall, hcontent⟩ | hcell
    · exact .inl hpending
    · exact .inr (.inl ⟨call, hreceipts call hcall receipt hcontent, hcontent⟩)
    · exact .inr (.inr hcell)
  · intro n r' hproducer hr' hsettled
    obtain ⟨r, hr, hsame⟩ := @produced_settled options task answer now n r' e.scheduler hr'
    rw [hproduced]
    exact h.flushed n r hproducer hr (hsame.trans hsettled)

/-- A producer's cell for the slot that asked it, of what the call had taken. -/
theorem Ok.sealed (h : Ok e) {task : SlotTask} {cell : Bytes} {now : Rat}
    (hturn : Event.InTurn options (.produced task (.ok (some cell)) now) e.scheduler) {call : ProducerCall}
    (hcall : call ∈ e.calls) {calls : List ProducerCall} (hcalls : calls.Sublist e.calls)
    (hperm : e.calls.Perm (call :: calls)) (hothers : ∀ other ∈ calls, other.generation ≠ task.generation)
    {content : Content} (hcontent : call.content = some content) {entry : Entry}
    (hproduction : Event.production (.produced task (.ok (some cell)) now) e.scheduler = some (call.job, entry))
    (hreceipt : ∀ receipt, content = .receipt receipt →
      ∀ r, e.scheduler.jobs.get call.job = some r → r.settled = false) :
    Ok { e with
      ledger := e.ledger.step options (.produced task (.ok (some cell)) now)
      calls
      contents := Function.update e.contents call.job (e.contents call.job ++ [content]) } := by
  have hevent : ∀ job, Event.produced task (.ok (some cell)) now ≠ .enqueue job := fun _ heq => Event.noConfusion heq
  have hplain : (Event.produced task (.ok (some cell)) now).Plain := trivial
  have hproduced : (e.ledger.step options (.produced task (.ok (some cell)) now)).produced =
      Function.update e.ledger.produced call.job (e.ledger.produced call.job ++ [entry]) :=
    congrArg e.ledger.produced.write hproduction
  obtain ⟨producer, hproducer, hmakes⟩ := h.taken call hcall content hcontent
  refine h.after hplain hevent hturn hcalls ?_ ?_ ?_ ?_ ?_
  · intro other hother slot _ hgeneration answer now' heq
    cases heq
    exact hothers other hother hgeneration.symm
  · intro n
    rw [hproduced]
    by_cases hn : n = call.job
    · rw [hn, Function.update_self, Function.update_self, List.length_append, List.length_append, h.aligned]
      rfl
    · rw [Function.update_of_ne hn, Function.update_of_ne hn]
      exact h.aligned n
  · intro n totalChunks cursor hn
    obtain ⟨hcursor, indices, hcontents, hnodup, hbound⟩ := h.chunks n totalChunks cursor hn
    have hoffered := hperm.filterMap (chunk? n)
    by_cases hjob : n = call.job
    · subst hjob
      -- the chunk moves from the calls to the cells
      rw [hproducer] at hn
      cases hn
      cases content with
      | receipt receipt => exact hmakes.elim
      | chunk index =>
        have hchunk : chunk? call.job call = some index := by
          unfold chunk?
          rw [if_pos rfl, hcontent]
        rw [List.filterMap_cons_some hchunk] at hoffered
        have hmoved : (indices ++ e.calls.filterMap (chunk? call.job)).Perm
            ((indices ++ [index]) ++ calls.filterMap (chunk? call.job)) := by
          rw [List.append_assoc]
          exact hoffered.append_left indices
        refine ⟨hcursor, indices ++ [index], ?_, hmoved.nodup_iff.mp hnodup, fun i hi => hbound i (hmoved.mem_iff.mpr hi)⟩
        rw [Function.update_self, hcontents, List.map_append]
        rfl
    · have hchunk : chunk? n call = none := if_neg fun heq => hjob heq.symm
      rw [List.filterMap_cons_none hchunk] at hoffered
      have hsame := hoffered.append_left indices
      refine ⟨hcursor, indices, ?_, hsame.nodup_iff.mp hnodup, fun i hi => hbound i (hsame.mem_iff.mpr hi)⟩
      rw [Function.update_of_ne hjob]
      exact hcontents
  · intro receipt hmem hdisplaced
    have hkept : ∀ n, Content.receipt receipt ∈ e.contents n → Content.receipt receipt ∈
        Function.update e.contents call.job (e.contents call.job ++ [content]) n := by
      intro n hcell
      by_cases hn : n = call.job
      · rw [hn, Function.update_self]
        rw [hn] at hcell
        exact List.mem_append_left _ hcell
      · rw [Function.update_of_ne hn]
        exact hcell
    rcases h.receipts receipt hmem hdisplaced with hpending | ⟨other, hother, htaken⟩ | ⟨n, hn, hcell⟩
    · exact .inl hpending
    · rcases List.mem_cons.mp (hperm.mem_iff.mp hother) with rfl | hother
      · -- the receipt moves from the call to the cell
        rw [hcontent] at htaken
        cases htaken
        refine .inr (.inr ⟨other.job, ?_, ?_⟩)
        · cases producer with
          | send => exact hmakes.elim
          | drain => exact hproducer
        · rw [Function.update_self]
          exact List.mem_append_right _ (List.mem_singleton_self _)
      · exact .inr (.inl ⟨other, hother, htaken⟩)
    · exact .inr (.inr ⟨n, hn, hkept n hcell⟩)
  · intro n r' hn hr' hsettled
    obtain ⟨r, hr, hsame⟩ := @produced_settled options task _ now n r' e.scheduler hr'
    have hne : n ≠ call.job := by
      rintro rfl
      rw [hproducer] at hn
      cases hn
      cases content with
      | chunk index => exact hmakes.elim
      | receipt receipt =>
        have hlive := hreceipt receipt rfl r hr
        rw [hsame, hsettled] at hlive
        cases hlive
    rw [hproduced, Function.update_of_ne hne]
    exact h.flushed n r hn hr (hsame.trans hsettled)

/-- What a producer returns for what it took. -/
theorem nextCellAnswer_cases {content : Option Content} {outcome : SealOutcome} {answer : Except Unit (Option Bytes)}
    (hanswer : nextCellAnswer content outcome = some answer) :
    (∃ cell taken, answer = .ok (some cell) ∧ content = some taken) ∨
      (∀ cell, answer ≠ .ok (some cell)) ∧ ∀ receipt cell, content = some (.receipt receipt) → outcome ≠ .cell cell := by
  unfold nextCellAnswer at hanswer
  split at hanswer
  · cases hanswer
    exact .inr ⟨nofun, nofun⟩
  · cases hanswer
    split
    · exact .inl ⟨_, _, rfl, rfl⟩
    · exact .inr ⟨nofun, nofun⟩
  · cases hanswer
    exact .inr ⟨nofun, nofun⟩
  · cases hanswer
    exact .inr ⟨nofun, nofun⟩
  · cases hanswer
    exact .inl ⟨_, _, rfl, rfl⟩
  · cases hanswer
  · cases hanswer
    exact .inr ⟨nofun, nofun⟩

theorem Ok.produced (h : Ok e) {task : SlotTask} {outcome : SealOutcome} {now : Rat}
    (hspared : Spared options (.produced task outcome now) e) : Ok (e.step options (.produced task outcome now)) := by
  unfold Edge.step
  dsimp only
  split
  · exact h
  rename_i answer hanswer
  have hturn : Event.InTurn options (.produced task answer now) e.scheduler := by
    refine hspared.inTurn _ ?_
    show (e.answer task outcome).map (fun answer => Event.produced task answer now) = _
    rw [hanswer]
    rfl
  by_cases hasks : task ∈ e.scheduler.tasks ∧ ∃ n job, task.stage = .nextCell n job
  · -- the slot has a call, and its job is the one it asks
    obtain ⟨hmem, n, job, hstage⟩ := hasks
    unfold Edge.answer at hanswer
    rw [hstage] at hanswer
    obtain ⟨call, hcalled, hreturned⟩ := Option.bind_eq_some_iff.mp hanswer
    have hfound : e.calls.find? (fun call => decide (call.generation = task.generation)) = some call := hcalled
    have hcall : call ∈ e.calls := List.mem_of_find?_eq_some hfound
    have hdecided := List.find?_some hfound
    have hgeneration : call.generation = task.generation := of_decide_eq_true hdecided
    obtain ⟨slot, hslot, hsame, job', hstage'⟩ := h.waiting call hcall
    obtain rfl : slot = task :=
      List.inj_on_of_nodup_map h.steady.sound.distinct hslot hmem (hsame.trans hgeneration)
    rw [hstage] at hstage'
    cases hstage'
    have hperm := filter_perm h.single hcall
    rw [hgeneration] at hperm
    have hothers : ∀ other ∈ e.calls.filter fun other => other.generation ≠ slot.generation,
        other.generation ≠ slot.generation := fun other hother => of_decide_eq_true (List.mem_filter.mp hother).2
    have hwaits : slot.stage.isSending = false := by
      rw [hstage]
      rfl
    rw [if_pos ⟨hmem, hwaits⟩, hcalled]
    rcases nextCellAnswer_cases hreturned with ⟨cell, content, rfl, hcontent⟩ | ⟨hnone, hunsealed⟩
    · obtain ⟨index, r, hjobSlot, -⟩ := (h.steady.booked.slots slot hmem).asked _ job hstage
      have hproduction : Event.production (.produced slot (.ok (some cell)) now) e.scheduler =
          some (call.job, some index, cell) := by
        unfold Event.production
        dsimp only
        rw [if_pos hmem, hstage, hjobSlot]
      rw [hproduction, Option.bind_some, hcontent]
      refine h.sealed hturn hcall List.filter_sublist hperm hothers hcontent hproduction fun receipt hreceipt => ?_
      exact (hspared.sealedReceipts slot outcome now call receipt rfl hcalled (hcontent.trans (congrArg some hreceipt))
        hmem).2
    · have hproduction : Event.production (.produced slot answer now) e.scheduler = none :=
        production_none fun cell hcell => absurd hcell (hnone cell)
      rw [hproduction]
      refine h.barren hturn hproduction List.filter_sublist (fun other hother _ => hothers other hother) ?_
      intro other hother receipt htaken
      rcases List.mem_cons.mp (hperm.mem_iff.mp hother) with rfl | hother
      · obtain ⟨⟨cell, hsealed⟩, -⟩ := hspared.sealedReceipts slot outcome now other receipt rfl hcalled htaken hmem
        exact absurd hsealed (hunsealed receipt cell htaken)
      · exact hother
  · -- no call has ended
    have hothers : ∀ call ∈ e.calls, task ∈ e.scheduler.tasks → call.generation ≠ task.generation := by
      intro call hcall hmem hsame
      obtain ⟨slot, hslot, hgeneration, job, hstage⟩ := h.waiting call hcall
      obtain rfl : slot = task :=
        List.inj_on_of_nodup_map h.steady.sound.distinct hslot hmem (hgeneration.trans hsame)
      exact hasks ⟨hmem, call.job, job, hstage⟩
    have hproduction : Event.production (.produced task answer now) e.scheduler = none := by
      by_cases hmem : task ∈ e.scheduler.tasks
      · exact production_none fun _ _ n job hstage => hasks ⟨hmem, n, job, hstage⟩
      · unfold Event.production
        split
        · rename_i heq
          cases heq
          rw [if_neg hmem]
        · rfl
    have hcalls : (if task ∈ e.scheduler.tasks ∧ task.stage.isSending = false
        then e.calls.filter fun call => call.generation ≠ task.generation else e.calls) = e.calls := by
      split
      · rename_i hmem
        exact List.filter_eq_self.mpr fun call hcall => decide_eq_true (hothers call hcall hmem.1)
      · rfl
    rw [hproduction, hcalls]
    exact h.barren hturn hproduction (.refl _) hothers fun call hcall _ _ => hcall

/-! ## New jobs -/

/-- `enqueue` leaves the edge, or adds a job and its producer. -/
theorem enqueue_cases (job : CoverJob) (producer : Producer) (e : Edge) : e.enqueue options job producer = e ∨
    ∃ r : JobRuntime, r.job = job ∧ r.settled = false ∧
      (Cover.step options (.enqueue job) e.scheduler).tasks = e.scheduler.tasks ∧
      (Cover.step options (.enqueue job) e.scheduler).jobs.runtimes = e.scheduler.jobs.runtimes ++ [r] ∧
      e.enqueue options job producer =
        { e with ledger := e.ledger.step options (.enqueue job), producers := e.producers ++ [producer] } := by
  rcases @enqueue_added options e.scheduler job with hsame | ⟨r, hjob, hlive, -, -, htasks, hruntimes⟩
  · left
    have hledger : e.ledger.step options (.enqueue job) = e.ledger := by
      show Ledger.mk (Cover.step options (.enqueue job) e.scheduler) e.ledger.produced e.ledger.accepted = e.ledger
      rw [show Cover.step options (.enqueue job) e.scheduler = e.scheduler from hsame]
    unfold Edge.enqueue
    dsimp only
    rw [hledger, if_pos rfl]
  · right
    refine ⟨r, hjob, hlive, htasks, hruntimes, ?_⟩
    unfold Edge.enqueue
    dsimp only
    rw [if_neg]
    show (Cover.step options (.enqueue job) e.scheduler).jobs.runtimes.length ≠ _
    rw [show (Cover.step options (.enqueue job) e.scheduler).jobs.runtimes = _ from hruntimes, List.length_append]
    exact Nat.succ_ne_self _

/-- A new job with its producer. -/
theorem Ok.enqueue (h : Ok e) (job : CoverJob) {producer : Producer}
    (hproducer : ∀ totalChunks cursor, producer = .send totalChunks cursor →
      job.declaredCellCount = totalChunks ∧ cursor = 0) : Ok (e.enqueue options job producer) := by
  rcases @enqueue_cases options job producer e with hsame | ⟨r, hjob, hlive, htasks, hruntimes, hadded⟩
  · rw [hsame]
    exact h
  rw [hadded]
  have hold : ∀ (n : Nat) p, e.producers[n]? = some p → (e.producers ++ [producer])[n]? = some p := by
    intro n p hp
    obtain ⟨hlt, -⟩ := List.getElem?_eq_some_iff.mp hp
    rw [List.getElem?_append_left hlt]
    exact hp
  have hnew : ∀ (n : Nat) p, (e.producers ++ [producer])[n]? = some p →
      e.producers[n]? = some p ∨ n = e.scheduler.jobs.runtimes.length ∧ p = producer := by
    intro n p hp
    by_cases hlt : n < e.producers.length
    · rw [List.getElem?_append_left hlt] at hp
      exact .inl hp
    · obtain ⟨hbound, -⟩ := List.getElem?_eq_some_iff.mp hp
      rw [List.length_append, List.length_singleton] at hbound
      obtain rfl : n = e.producers.length := by omega
      rw [List.getElem?_concat_length] at hp
      exact .inr ⟨h.steady.length, (Option.some.inj hp).symm⟩
  have hnone : e.scheduler.jobs.get e.scheduler.jobs.runtimes.length = none := Jobs.get_length _
  have hgoes := @step_frozen options _ h.steady.sound (.enqueue job)
  have hplain : (Event.enqueue job).Plain := trivial
  constructor
  · constructor
    · exact @step_sound options _ h.steady.sound (.enqueue job)
    · exact e.ledger.step_booked h.steady.sound h.steady.booked trivial
    · exact step_unfinished h.steady.sound h.steady.unfinished _
    · exact step_uncancelled h.steady.sound h.steady.uncancelled hplain
    · show (e.producers ++ [producer]).length = (Cover.step options (.enqueue job) e.scheduler).jobs.runtimes.length
      rw [hruntimes, List.length_append, List.length_append, h.steady.length]
      rfl
    · intro n q totalChunks cursor hq hn
      rcases get_added hruntimes hq with ⟨rfl, rfl⟩ | hq
      · rcases hnew _ _ hn with hn | ⟨-, hsend⟩
        · obtain ⟨hlt, -⟩ := List.getElem?_eq_some_iff.mp hn
          rw [h.steady.length] at hlt
          exact absurd hlt (Nat.lt_irrefl _)
        · rw [hjob]
          exact (hproducer totalChunks cursor hsend.symm).1
      · rcases hnew _ _ hn with hn | ⟨rfl, -⟩
        · exact h.steady.declared n q totalChunks cursor hq hn
        · rw [show e.scheduler.jobs.get _ = none from hnone] at hq
          cases hq
    · intro n hn
      obtain ⟨q, hq, hsettled, hall⟩ := h.steady.completed n hn
      exact ⟨q, hgoes hq hsettled, hsettled, hall⟩
    · intro n hn
      obtain ⟨q, hq, hsettled, hless⟩ := h.steady.exhausted n hn
      exact ⟨q, hgoes hq hsettled, hsettled, hless⟩
  · intro call hcall
    obtain ⟨task, htask, hrest⟩ := h.waiting call hcall
    exact ⟨task, htasks.symm ▸ htask, hrest⟩
  · exact h.single
  · intro call hcall content hcontent
    obtain ⟨p, hp, hmakes⟩ := h.taken call hcall content hcontent
    exact ⟨p, hold _ _ hp, hmakes⟩
  · exact h.aligned
  · intro n totalChunks cursor hn
    rcases hnew _ _ hn with hn | ⟨rfl, hsend⟩
    · exact h.chunks n totalChunks cursor hn
    · -- nothing was taken for it
      obtain ⟨-, rfl⟩ := hproducer totalChunks cursor hsend.symm
      obtain ⟨hcontents, hcalls⟩ := h.nothing hnone
      refine ⟨Nat.zero_le _, [], hcontents, ?_, ?_⟩
      · rw [hcalls]
        exact List.nodup_nil
      · rw [hcalls]
        exact nofun
  · exact h.passed
  · intro receipt hmem hdisplaced
    rcases h.receipts receipt hmem hdisplaced with hpending | hcall | ⟨n, hn, hcell⟩
    · exact .inl hpending
    · exact .inr (.inl hcall)
    · exact .inr (.inr ⟨n, hold _ _ hn, hcell⟩)
  · intro n q hn hq hsettled
    rcases get_added hruntimes hq with ⟨-, rfl⟩ | hq
    · rw [hlive] at hsettled
      cases hsettled
    · rcases hnew _ _ hn with hn | ⟨rfl, -⟩
      · exact h.flushed n q hn hq hsettled
      · rw [show e.scheduler.jobs.get _ = none from hnone] at hq
        cases hq

/-! ## Receipts -/

/-- The drain job is no matter of what holds between the events. -/
theorem Ok.withDrainJob (h : Ok e) (drainJob : Option Nat) : Ok { e with drainJob } :=
  ⟨h.steady, h.waiting, h.single, h.taken, h.aligned, h.chunks, h.passed, h.receipts, h.flushed⟩

theorem Ok.ensureReceiptDrainJob (h : Ok e) (laneLabel : JsString) : Ok (e.ensureReceiptDrainJob options laneLabel) := by
  unfold Edge.ensureReceiptDrainJob
  dsimp only
  split
  · exact h
  · exact (h.enqueue _ fun _ _ heq => Producer.noConfusion heq).withDrainJob _

/-- A receipt is queued; the oldest ones may be displaced. -/
theorem Ok.queueScheduledReceipt (h : Ok e) (merkleRoot token : Bytes) (laneLabel : JsString) :
    Ok (e.queueScheduledReceipt options merkleRoot token laneLabel) := by
  unfold Edge.queueScheduledReceipt
  split
  · exact h
  dsimp only
  refine Ok.ensureReceiptDrainJob ?_ laneLabel
  refine ⟨h.steady, h.waiting, h.single, h.taken, h.aligned, h.chunks, h.passed, ?_, h.flushed⟩
  generalize (e.pending ++ [(⟨e.receipts.length, merkleRoot, token⟩ : Receipt)]).length -
    MAX_PENDING_SCHEDULED_RECEIPTS = excess
  intro receipt hmem hdisplaced
  have hdisplaced := not_or.mp fun hor => hdisplaced (List.mem_append.mpr hor)
  have hqueued : receipt ∈ e.pending ++ [(⟨e.receipts.length, merkleRoot, token⟩ : Receipt)] →
      receipt ∈ (e.pending ++ [(⟨e.receipts.length, merkleRoot, token⟩ : Receipt)]).drop excess := by
    intro hqueued
    refine (List.mem_append.mp ?_).resolve_left hdisplaced.2
    rw [List.take_append_drop]
    exact hqueued
  rcases List.mem_append.mp hmem with hmem | hmem
  · rcases h.receipts receipt hmem hdisplaced.1 with hpending | hcall | hcell
    · exact .inl (hqueued (List.mem_append_left _ hpending))
    · exact .inr (.inl hcall)
    · exact .inr (.inr hcell)
  · exact .inl (hqueued (List.mem_append_right _ hmem))

/-! ## Whole runs -/

/-- An event that spares the edge keeps it. -/
theorem Ok.step (h : Ok e) {event : EdgeEvent} (hspared : Spared options event e) : Ok (e.step options event) := by
  have hfield : ∀ n b, Robust options (Field (·.settled) n b) := fun _ _ => Field.robust options unmoved_settled
  cases event with
  | start now => exact h.unsettling trivial fun n b => (hfield n b).start now e.scheduler
  | suspend now => exact h.unsettling trivial fun n b => (hfield n b).suspend now e.scheduler
  | resume now => exact h.unsettling trivial fun n b => (hfield n b).resume now e.scheduler
  | timer firedAt acked => exact h.timer hspared
  | produced task outcome now => exact h.produced hspared
  | sent task answer now => exact h.sent (hspared.inTurn _ rfl)
  | send channelMessageLabel totalChunks =>
    show Ok (match buildScheduledSendJob _ _ _ with | .error _ => e | .ok job => _)
    cases hbuild : buildScheduledSendJob options.schedule.slotsPerLane totalChunks channelMessageLabel with
    | error error => exact h
    | ok job =>
      refine h.enqueue job fun total cursor hsend => ?_
      cases hsend
      exact ⟨buildScheduledSendJob_declared hbuild, rfl⟩
  | receipt merkleRoot token laneLabel => exact h.queueScheduledReceipt merkleRoot token laneLabel
  | settled laneLabel =>
    unfold Edge.step
    dsimp only
    split
    · exact h
    · split
      · exact (h.withDrainJob none).ensureReceiptDrainJob laneLabel
      · exact h

theorem new_steady : Steady (.new fresh) [] [] [] := by
  have hnone : ∀ n, fresh.jobs.get n = none := Jobs.get_empty
  refine ⟨fresh_sound, fresh_booked, ?_, ⟨?_, fun _ htask => absurd htask List.not_mem_nil⟩, rfl, ?_, nofun, nofun⟩
  · intro n r hr
    rw [show (Ledger.new fresh).scheduler = fresh from rfl, hnone] at hr
    cases hr
  · intro n hn
    obtain ⟨r, hr, -⟩ := Option.map_eq_some_iff.mp hn
    rw [show (Ledger.new fresh).scheduler = fresh from rfl, hnone] at hr
    cases hr
  · intro n r totalChunks cursor hr
    rw [show (Ledger.new fresh).scheduler = fresh from rfl, hnone] at hr
    cases hr

theorem new_ok : Ok (new fresh) where
  steady := new_steady
  waiting := nofun
  single := List.nodup_nil
  taken := nofun
  aligned _ := rfl
  chunks _ _ _ := nofun
  passed _ := rfl
  receipts := nofun
  flushed _ _ := nofun

/-- In a run that spares the edge, the producers lose nothing. -/
theorem producers_lose_nothing {s₀ : CoverScheduler} (hnew : CoverScheduler.new options = .ok s₀)
    {events : List EdgeEvent} (hspared : Along (Edge.step options) (Spared options) events (new s₀))
    (before after : List EdgeEvent) (hevents : events = before ++ after) :
    LosesNothing (runs (Edge.step options) before (new s₀)) := by
  subst hevents
  obtain rfl := new_eq hnew
  exact ((along_append hspared).invariant (fun event e hevent hok => hok.step hevent) new_ok).losesNothing

/-! ## A receipt and an acknowledged chunk -/

/-- The job that drains one receipt. -/
def sampleDrain : CoverJob := ⟨[0x6c], .control, 1, none, false⟩

/-- The slot that asks it. -/
def drainSlot (stage : Stage) : SlotTask := askingSlot 2 0 ⟨0, 0, 1000⟩ stage

/-- A receipt is queued, and the first slot of the first cycle asks for it. -/
def receiptRun : List EdgeEvent :=
  [.start 0, .receipt (List.replicate 64 1) (List.replicate 64 2) [0x6c], .timer 0 fun _ => ∅, .timer 250 fun _ => ∅]

/-- The request with its cell. -/
def drainRequest : CoverSendRequest :=
  ⟨[7], .job .control, slotAt twoSlots.schedule ⟨0, 0, 1000⟩ 0, some [0x6c], some 0⟩

/-- It is sealed and sent. -/
def sealedRun : List EdgeEvent := receiptRun ++
  [.produced (drainSlot (.nextCell 0 sampleDrain)) (.cell [7]) 251, .sent (drainSlot (.sending drainRequest)) (.ok true) 252]

/-- The edge after so many of these events. -/
abbrev sealedEdge (count : Nat) : Edge := runs (Edge.step twoSlots) (sealedRun.take count) (new fresh)

/-- The events that are neither a timer nor an answer. -/
def Quiet : EdgeEvent → Prop
  | .timer _ _ | .produced _ _ _ | .sent _ _ _ => False
  | _ => True

/-- They spare every edge. -/
theorem spared_quiet {event : EdgeEvent} (hquiet : Quiet event) : Spared options event e := by
  refine ⟨fun answer hanswer => ?_, fun firedAt acked h => ?_, fun task outcome now _ _ h => ?_, fun firedAt acked _ h => ?_⟩
  · cases event with
    | produced => exact hquiet.elim
    | sent => exact hquiet.elim
    | _ => cases hanswer
  · exact (h ▸ hquiet : Quiet (.timer firedAt acked)).elim
  · exact (h ▸ hquiet : Quiet (.produced task outcome now)).elim
  · exact (h ▸ hquiet : Quiet (.timer firedAt acked)).elim

/-- A timer inside a cycle spares an edge without acknowledged chunks. -/
theorem spared_timer {firedAt : Rat} (hkind : e.scheduler.timer.map (·.kind) ≠ some .cycleBoundary) :
    Spared options (.timer firedAt fun _ => ∅) e := by
  refine ⟨fun answer hanswer => (nomatch hanswer), fun _ _ h => ?_, fun _ _ _ _ _ h => EdgeEvent.noConfusion h,
    fun _ _ timer _ htimer hboundary => ?_⟩
  · cases h
    intro n totalChunks cursor _ i _ _
    exact Finset.notMem_empty i
  · rw [htimer] at hkind
    exact absurd (congrArg some hboundary) hkind

/-- A cell for the drain job, which has none, spares the edge. -/
theorem spared_sealed (hget : ((sealedEdge 4).scheduler.jobs.get 0).map (fun r => (r.sentCells, r.pendingCell, r.settled)) =
      some (0, none, false))
    (hbare : ∀ task ∈ (sealedEdge 4).scheduler.tasks, task.stage.jobCell? = none) :
    Spared twoSlots (.produced (drainSlot (.nextCell 0 sampleDrain)) (.cell [7]) 251) (sealedEdge 4) := by
  have hcalled : (sealedEdge 4).called (drainSlot (.nextCell 0 sampleDrain)) =
    some ⟨2, 0, some (.receipt ⟨0, List.replicate 64 1, List.replicate 64 2⟩)⟩ := by decide +kernel
  have hanswer : (sealedEdge 4).answered (.produced (drainSlot (.nextCell 0 sampleDrain)) (.cell [7]) 251) =
      some (.produced (drainSlot (.nextCell 0 sampleDrain)) (.ok (some [7])) 251) := by
    show (((sealedEdge 4).called (drainSlot (.nextCell 0 sampleDrain))).bind _).map _ = _
    rw [hcalled]
    rfl
  refine ⟨fun answer h => ?_, fun _ _ h => EdgeEvent.noConfusion h, fun _ _ _ call receipt h hcall _ _ => ?_,
    fun _ _ _ h => EdgeEvent.noConfusion h⟩
  · rw [hanswer] at h
    cases h
    intro jobSlot hslot
    cases hslot
    refine ⟨fun r hr _ => ?_, fun hcached => absurd hcached (by decide +kernel)⟩
    change (sealedEdge 4).scheduler.jobs.get 0 = some r at hr
    rw [hr] at hget
    obtain ⟨hsent, hrest⟩ := Prod.mk.inj (Option.some.inj hget)
    refine ⟨hsent.symm, fun cell hheld => ?_⟩
    rcases hheld with ⟨q, hq, hq'⟩ | ⟨task, htask, -, hcell⟩
    · change (sealedEdge 4).scheduler.jobs.get 0 = some q at hq
      rw [hr] at hq
      cases hq
      rw [(Prod.mk.inj hrest).1] at hq'
      cases hq'
    · rw [hbare task htask] at hcell
      cases hcell
  · cases h
    rw [hcalled] at hcall
    cases hcall
    refine ⟨⟨[7], rfl⟩, fun r hr => ?_⟩
    rw [hr] at hget
    exact (Prod.mk.inj (Prod.mk.inj (Option.some.inj hget)).2).2

theorem sealedRun_spared : Along (Edge.step twoSlots) (Spared twoSlots) sealedRun (new fresh) := by
  refine ⟨spared_quiet trivial, spared_quiet trivial, ?_, ?_, ?_, ?_, trivial⟩
  · exact spared_timer (e := sealedEdge 2) (by decide +kernel)
  · exact spared_timer (e := sealedEdge 3) (by decide +kernel)
  · exact spared_sealed (by decide +kernel) (by decide +kernel)
  · show Spared twoSlots _ (sealedEdge 5)
    have hget : ((sealedEdge 5).scheduler.jobs.get 0).map (·.settled) = some false := by decide +kernel
    refine ⟨fun answer h => ?_, fun _ _ h => EdgeEvent.noConfusion h,
      fun _ _ _ _ _ h => EdgeEvent.noConfusion h, fun _ _ _ h => EdgeEvent.noConfusion h⟩
    cases h
    intro jobSlot hslot _
    cases hslot
    refine ⟨by decide +kernel, fun r hr => ?_⟩
    change (sealedEdge 5).scheduler.jobs.get 0 = some r at hr
    rw [hr] at hget
    exact Option.some.inj hget

theorem producers_lose_nothing_sealed :
    LosesNothing (runs (Edge.step twoSlots) sealedRun (new fresh)) ∧
      (runs (Edge.step twoSlots) sealedRun (new fresh)).completed = [0] :=
  ⟨producers_lose_nothing twoSlots_new sealedRun_spared sealedRun [] (List.append_nil _).symm, by decide +kernel⟩

/-- The receipt is taken and sealing it throws. -/
def thrownRun : List EdgeEvent := receiptRun ++ [.produced (drainSlot (.nextCell 0 sampleDrain)) .threw 251]

/-- The job of one chunk. -/
def sampleSend : CoverJob := ⟨[0x63], .real, 1, none, false⟩

/-- A slot of that job, which sends a dummy. -/
def dummySlot (generation ordinal : Nat) (stage : Stage) : SlotTask :=
  ⟨generation, slotAt twoSlots.schedule ⟨0, 0, 1000⟩ ordinal, 0, some ⟨0, 0⟩, stage⟩

/-- Its answers. -/
def dummyAnswers (generation ordinal : Nat) (now : Rat) : List EdgeEvent :=
  [.produced (dummySlot generation ordinal (.nextCell 0 sampleSend)) .missing now,
    .produced (dummySlot generation ordinal (.makeDummy (some [0x63]))) (.cell [9]) now,
    .sent (dummySlot generation ordinal
      (.sending ⟨[9], .dummy, slotAt twoSlots.schedule ⟨0, 0, 1000⟩ ordinal, some [0x63], none⟩)) (.ok true) now]

/-- The only chunk of a send is acknowledged before its turn, and the cycle ends. -/
def ackedRun : List EdgeEvent :=
  [.start 0, .send [0x63] 1, .timer 0 fun _ => ∅, .timer 250 fun _ => {0}] ++ dummyAnswers 2 0 251 ++
    [.timer 750 fun _ => {0}] ++ dummyAnswers 3 1 751 ++ [.timer 1000 fun _ => {0}]

/-- Only the answer of a producer makes a cell. -/
theorem step_contents {event : EdgeEvent} (hevent : ∀ task cell now, event ≠ .produced task (.cell cell) now) :
    (e.step options event).contents = e.contents := by
  have hask : ∀ (e : Edge) acked n generation, (e.ask acked n generation).contents = e.contents := by
    intro e acked n generation
    unfold Edge.ask
    split
    · rfl
    · rfl
    · split <;> rfl
  have henqueue : ∀ (e : Edge) laneLabel, (e.ensureReceiptDrainJob options laneLabel).contents = e.contents := by
    intro e laneLabel
    unfold Edge.ensureReceiptDrainJob
    dsimp only
    split <;> rfl
  unfold Edge.step
  split
  · rfl
  · rfl
  · rfl
  · dsimp only
    split
    · rfl
    · exact hask _ _ _ _
  · rename_i task outcome now
    split
    · rfl
    · rename_i answer hanswer
      have hproduction : Event.production (.produced task answer now) e.scheduler = none := by
        refine production_none fun cell hcell n job hstage => ?_
        subst hcell
        unfold Edge.answer at hanswer
        rw [hstage] at hanswer
        obtain ⟨call, -, hreturned⟩ := Option.bind_eq_some_iff.mp hanswer
        cases outcome with
        | cell bytes => exact hevent task bytes now rfl
        | missing => rcases call with ⟨_, _, _ | _ | _⟩ <;> cases hreturned
        | threw => rcases call with ⟨_, _, _ | _ | _⟩ <;> cases hreturned
      dsimp only
      rw [hproduction]
  · rfl
  · split <;> rfl
  · unfold Edge.queueScheduledReceipt
    split
    · rfl
    · exact henqueue _ _
  · split
    · rfl
    · split
      · exact henqueue _ _
      · rfl

/-- A receipt whose sealing throws is lost; a send whose chunks are all acknowledged runs out of
capacity. -/
theorem producers_lose :
    ¬ LosesNothing (runs (Edge.step twoSlots) thrownRun (new fresh)) ∧
      ¬ LosesNothing (runs (Edge.step twoSlots) ackedRun (new fresh)) := by
  have hthrown : (runs (Edge.step twoSlots) thrownRun (new fresh)).pending = [] ∧
      (runs (Edge.step twoSlots) thrownRun (new fresh)).calls = [] ∧
      (runs (Edge.step twoSlots) thrownRun (new fresh)).displaced = [] ∧
      (runs (Edge.step twoSlots) thrownRun (new fresh)).receipts = [⟨0, List.replicate 64 1, List.replicate 64 2⟩] := by
    decide +kernel
  have hcontents : (runs (Edge.step twoSlots) thrownRun (new fresh)).contents = fun _ => [] := by
    have hstep : ∀ event (e : Edge), (∀ task cell now, event ≠ EdgeEvent.produced task (.cell cell) now) →
        e.contents = (fun _ => []) → (e.step twoSlots event).contents = fun _ => [] :=
      fun event e hevent h => (step_contents hevent).trans h
    refine Along.invariant (I := fun e : Edge => e.contents = fun _ => [])
      (p := fun event (_ : Edge) => ∀ task cell now, event ≠ EdgeEvent.produced task (.cell cell) now) hstep ?_ rfl
    refine ⟨?_, ?_, ?_, ?_, ?_, trivial⟩ <;> exact fun _ _ _ h => by cases h
  have hacked : (runs (Edge.step twoSlots) ackedRun (new fresh)).exhausted = [0] ∧
      (runs (Edge.step twoSlots) ackedRun (new fresh)).producers = [.send 1 1] ∧
      (runs (Edge.step twoSlots) ackedRun (new fresh)).passed 0 = [0] := by decide +kernel
  constructor
  · intro h
    obtain ⟨hpending, hcalls, hdisplaced, hreceipts⟩ := hthrown
    have hkept := h.receipts ⟨0, List.replicate 64 1, List.replicate 64 2⟩
    rw [hreceipts, hdisplaced, hpending] at hkept
    rcases hkept (List.mem_singleton_self _) List.not_mem_nil with hmem | (⟨call, hcall, -⟩ | ⟨n, k, r, cell, hk, -⟩) | ⟨n, k, entry, hk, -⟩
    · cases hmem
    · rw [hcalls] at hcall
      cases hcall
    · rw [hcontents] at hk
      cases hk
    · rw [hcontents] at hk
      cases hk
  · intro h
    obtain ⟨hexhausted, hproducers, hpassed⟩ := hacked
    have hunsent := h.exhausted 0
    rw [hexhausted, hproducers, hpassed] at hunsent
    obtain ⟨i, hi, hnot, -⟩ := hunsent (List.mem_singleton_self _) 1 1 rfl
    obtain rfl : i = 0 := by omega
    exact hnot (List.mem_singleton_self _)

end Edge

end Cover

end P2Party
