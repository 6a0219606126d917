import Mathlib.Data.Rat.Defs
import Mathlib.Algebra.Order.Floor.Defs
import P2Party.Base.JsString
import P2Party.Base.OrdMap
import P2Party.Base.Simulation
import P2Party.Cryptography.LibCrypto

/-!
# The cover scheduler (`handlers/coverScheduler.ts`)

A room with scheduled cover opens the same lanes at every cycle boundary and sends one
cell in every slot of the cycle, whether or not a job has a cell for it. The scheduler
has one timer; a slot is an asynchronous task that waits first for its cell and then
for the lane, and `generation` tells a task that the scheduler has moved on meanwhile.

The model has one operation per thing that can happen to a scheduler: a call of its
methods, the timer's callback, a producer's answer, a lane's answer. Readings of the
clock are inputs of the operations that take them. `calls` records what the scheduler
asked of its lanes. Observers (`onStatusChange`, `onJobResult`, `onJobInterrupted`) are
left out, and with them the reasons they are told.
-/

namespace P2Party

open Base

namespace Cover

/-! ## The schedule -/

/-- `MAX_COVER_LANES` (coverScheduler.ts:172). -/
abbrev MAX_COVER_LANES : Nat := 16

/-- `MIN_COVER_SLOT_MS` (coverScheduler.ts:173). -/
abbrev MIN_COVER_SLOT_MS : Nat := 25

/-- The errors of this file. -/
def failure (message : String) : JsError := .error ("coverScheduler: " ++ message)

/-- `Number.isSafeInteger`, of an integer. -/
abbrev SafeInteger (value : Int) : Prop := value.natAbs ≤ MAX_SAFE_INTEGER

/-- `assertSafeInteger` (coverScheduler.ts:176-179). -/
def assertSafeInteger (name : String) (value : Int) : Except JsError Unit :=
  demand (SafeInteger value) (failure (name ++ " must be a safe integer"))

/-- `CoverSchedule` (coverScheduler.ts:20-26). -/
structure CoverSchedule where
  phaseOffsetMs : Int
  coverCadenceMs : Nat
  coverLanes : Nat
  coverFramesPerCell : Nat
  coverDurationEpochs : Nat
deriving DecidableEq

namespace CoverSchedule

variable (schedule : CoverSchedule)

/-- `slotsPerEpoch` (coverScheduler.ts:252-253). -/
def slotsPerEpoch : Nat := schedule.coverLanes * schedule.coverFramesPerCell

/-- `slotsPerLane` (coverScheduler.ts:254-255). -/
def slotsPerLane : Nat := schedule.coverFramesPerCell * schedule.coverDurationEpochs

/-- `cycleDurationMs` (coverScheduler.ts:250-251). -/
def cycleDurationMs : Nat := schedule.coverCadenceMs * schedule.coverDurationEpochs

/-- `totalCycleSlots` (coverScheduler.ts:820-821). -/
def totalCycleSlots : Nat := schedule.slotsPerEpoch * schedule.coverDurationEpochs

/-- `coverSlotSpacingMs` (coverScheduler.ts:917-918). -/
def coverSlotSpacingMs : Rat := schedule.coverCadenceMs / schedule.slotsPerEpoch

end CoverSchedule

/-- `validateCoverSchedule` (coverScheduler.ts:920-955). -/
def validateCoverSchedule (schedule : CoverSchedule) : Except JsError Unit := do
  assertSafeInteger "phase offset" schedule.phaseOffsetMs
  assertSafeInteger "cover cadence" schedule.coverCadenceMs
  assertSafeInteger "cover lanes" schedule.coverLanes
  assertSafeInteger "cover frames per cell" schedule.coverFramesPerCell
  assertSafeInteger "cover duration epochs" schedule.coverDurationEpochs
  demand (¬ schedule.coverCadenceMs < 1) (failure "cover cadence must be positive")
  demand (¬ (schedule.coverLanes < 1 ∨ schedule.coverLanes > MAX_COVER_LANES))
    (failure "cover lanes must be between 1 and 16")
  demand (¬ schedule.coverFramesPerCell < 1) (failure "cover frames per cell must be positive")
  demand (¬ schedule.coverDurationEpochs < 1) (failure "cover duration epochs must be positive")
  demand (SafeInteger schedule.slotsPerEpoch ∧ SafeInteger schedule.slotsPerLane ∧
    SafeInteger schedule.cycleDurationMs) (failure "schedule geometry is out of range")
  demand (¬ schedule.coverSlotSpacingMs < MIN_COVER_SLOT_MS)
    (failure "schedule requires at least 25ms per staggered slot")

/-- The fields of a cycle that are fixed when it opens. -/
structure CycleSpan where
  index : Int
  startMs : Int
  endMs : Int
deriving DecidableEq

/-- `CoverSlot` (coverScheduler.ts:28-38). -/
structure CoverSlot where
  deadlineMs : Int
  cycleIndex : Int
  cycleStartMs : Int
  cycleEndMs : Int
  epochIndex : Int
  epochInCycle : Nat
  laneIndex : Nat
  frameIndex : Nat
  laneSlotIndex : Nat
deriving DecidableEq

/-- `slotAt` (coverScheduler.ts:655-680). Products and quotients are exact here and in
`nextCycleBoundary`; the doubles of the source agree with them while the products are safe integers. -/
def slotAt (schedule : CoverSchedule) (cycle : CycleSpan) (ordinal : Nat) : CoverSlot :=
  let epochInCycle := ordinal / schedule.slotsPerEpoch
  let withinEpoch := ordinal % schedule.slotsPerEpoch
  let frameIndex := withinEpoch / schedule.coverLanes
  let numerator := (2 * withinEpoch + 1) * schedule.coverCadenceMs
  { deadlineMs := cycle.startMs + epochInCycle * schedule.coverCadenceMs +
      numerator / (2 * schedule.slotsPerEpoch)
    cycleIndex := cycle.index
    cycleStartMs := cycle.startMs
    cycleEndMs := cycle.endMs
    epochIndex := cycle.index * schedule.coverDurationEpochs + epochInCycle
    epochInCycle
    laneIndex := withinEpoch % schedule.coverLanes
    frameIndex
    laneSlotIndex := epochInCycle * schedule.coverFramesPerCell + frameIndex }

/-- `nextCycleBoundary` (coverScheduler.ts:420-433). -/
def nextCycleBoundary (schedule : CoverSchedule) (now : Rat) (inclusive : Bool) :
    Except JsError Int := do
  let cycleIndex := ((now - schedule.phaseOffsetMs) / schedule.cycleDurationMs).ceil
  let boundary := schedule.phaseOffsetMs + cycleIndex * schedule.cycleDurationMs
  let boundary := if inclusive = false ∧ (boundary : Rat) ≤ now
    then schedule.phaseOffsetMs + (cycleIndex + 1) * schedule.cycleDurationMs else boundary
  demand (SafeInteger boundary) (failure "next cycle boundary is out of range")
  return boundary

/-- `cycleIndexAtBoundary` (coverScheduler.ts:435-441); `Math.round` rounds halves up. -/
def cycleIndexAtBoundary (schedule : CoverSchedule) (boundaryMs : Int) : Except JsError Int := do
  let cycleIndex :=
    (((boundaryMs - schedule.phaseOffsetMs : Int) : Rat) / schedule.cycleDurationMs + 1 / 2).floor
  assertSafeInteger "cycle index" cycleIndex
  return cycleIndex

/-! ## Jobs -/

/-- `CoverJobKind` (coverScheduler.ts:4). -/
inductive CoverJobKind
  | real
  | control
deriving DecidableEq

/-- `CoverCellSource` (coverScheduler.ts:5). -/
inductive CoverCellSource
  | job (kind : CoverJobKind)
  | cancel
  | dummy
deriving DecidableEq

/-- `CoverJob` (coverScheduler.ts:53-60); the answers of its producers are inputs of the
operations that receive them. -/
structure CoverJob where
  id : JsString
  kind : CoverJobKind
  declaredCellCount : Int
  priority : Option Int
  cancellable : Bool
deriving DecidableEq

/-- `JobRuntime.state` (coverScheduler.ts:144). -/
inductive JobState
  | queued
  | admitted
  | terminal
deriving DecidableEq

/-- `JobRuntime` (coverScheduler.ts:141-153). -/
structure JobRuntime where
  job : CoverJob
  sequence : Nat
  state : JobState
  everAdmitted : Bool
  sentCells : Nat
  cancelRequested : Bool
  cancelSent : Bool
  completed : Bool
  settled : Bool
  pendingCell : Option Bytes
  pendingCancelCell : Option Bytes
deriving DecidableEq

/-- `jobTier` (coverScheduler.ts:187-188). -/
def jobTier (runtime : JobRuntime) : Nat :=
  if runtime.cancelRequested then 0 else if runtime.job.kind = .control then 1 else 2

/-- `compareQueuedJobs` (coverScheduler.ts:190-197): may `left` stay before `right`? -/
def compareQueuedJobs (left right : JobRuntime) : Bool :=
  if jobTier left ≠ jobTier right then jobTier left < jobTier right
  else if left.job.priority.getD 0 ≠ right.job.priority.getD 0 then
    right.job.priority.getD 0 < left.job.priority.getD 0
  else left.sequence ≤ right.sequence

/-- The jobs of a scheduler: every runtime made so far at the place of its sequence
number, the queue and the table of live ids. -/
structure Jobs where
  runtimes : List JobRuntime
  queued : List Nat
  byId : OrdMap JsString Nat

namespace Jobs

/-- No job yet. -/
def empty : Jobs := ⟨[], [], OrdMap.empty⟩

/-- The runtime with a sequence number. -/
def get (jobs : Jobs) (runtime : Nat) : Option JobRuntime := jobs.runtimes[runtime]?

/-- Change one runtime. -/
def update (jobs : Jobs) (runtime : Nat) (f : JobRuntime → JobRuntime) : Jobs :=
  { jobs with runtimes := jobs.runtimes.modify runtime f }

/-- `sortQueue` (coverScheduler.ts:443-445). -/
def sortQueue (jobs : Jobs) : Jobs :=
  { jobs with
    queued := jobs.queued.mergeSort fun left right =>
      match jobs.get left, jobs.get right with
      | some left, some right => compareQueuedJobs left right
      | _, _ => true }

/-- `removeQueued` (coverScheduler.ts:447-450). -/
def removeQueued (jobs : Jobs) (runtime : Nat) : Jobs :=
  { jobs with queued := jobs.queued.erase runtime }

/-- `dequeue` (coverScheduler.ts:452-455). -/
def dequeue (jobs : Jobs) : Option Nat × Jobs :=
  match jobs.sortQueue.queued with
  | [] => (none, jobs)
  | runtime :: rest => (some runtime, { jobs with queued := rest })

/-- The selection of `openCycle` (coverScheduler.ts:592-594). -/
def dequeueMany : Nat → Jobs → List (Option Nat) × Jobs
  | 0, jobs => ([], jobs)
  | count + 1, jobs =>
    let (runtime, jobs) := jobs.dequeue
    let (selected, jobs) := dequeueMany count jobs
    (runtime :: selected, jobs)

/-- `requeue` (coverScheduler.ts:457-468). -/
def requeue (jobs : Jobs) (runtime : Nat) : Jobs :=
  match jobs.get runtime with
  | none => jobs
  | some r =>
    if r.settled ∨ r.completed ∨ r.cancelSent then jobs
    else
      let jobs := jobs.update runtime fun r => { r with state := .queued }
      let jobs := if runtime ∈ jobs.queued then jobs
        else { jobs with queued := jobs.queued ++ [runtime] }
      jobs.sortQueue

/-- `settle` (coverScheduler.ts:470-478). -/
def settle (jobs : Jobs) (runtime : Nat) : Jobs :=
  match jobs.get runtime with
  | none => jobs
  | some r =>
    if r.settled then jobs
    else
      let jobs := jobs.update runtime fun r => { r with settled := true, state := .terminal }
      let jobs := jobs.removeQueued runtime
      if jobs.byId.get r.job.id = some runtime
        then { jobs with byId := jobs.byId.delete r.job.id } else jobs

/-- Admit the selected jobs (coverScheduler.ts:595-599). -/
def admitSelected (jobs : Jobs) (selected : List (Option Nat)) : Jobs :=
  selected.foldl (fun jobs runtime =>
    match runtime with
    | none => jobs
    | some runtime =>
      jobs.update runtime fun r => { r with state := .admitted, everAdmitted := true }) jobs

/-- Requeue every job of a list (coverScheduler.ts:636-638, 848-852). -/
def requeueAll (jobs : Jobs) (runtimes : List (Option Nat)) : Jobs :=
  runtimes.foldl (fun jobs runtime =>
    match runtime with
    | none => jobs
    | some runtime => jobs.requeue runtime) jobs

/-- The end of a cycle for the job of one lane (coverScheduler.ts:858-870). -/
def finalize (jobs : Jobs) (runtime : Nat) : Jobs :=
  match jobs.get runtime with
  | none => jobs
  | some r =>
    if r.settled then jobs
    else if r.cancelRequested ∧ r.cancelSent = false then jobs.requeue runtime
    else jobs.settle runtime

end Jobs

/-! ## Lanes and calls -/

/-- `CoverJobSummary` (coverScheduler.ts:62-66). -/
structure CoverJobSummary where
  id : JsString
  kind : CoverJobKind
  declaredCellCount : Int
deriving DecidableEq

/-- `CoverLaneOpenContext` (coverScheduler.ts:68-74). -/
structure CoverLaneOpenContext where
  cycle : CycleSpan
  laneIndex : Nat
  job : Option CoverJobSummary
deriving DecidableEq

/-- `CoverSendRequest` (coverScheduler.ts:76-82). -/
structure CoverSendRequest where
  cell : Bytes
  source : CoverCellSource
  slot : CoverSlot
  jobId : Option JsString
  jobCellIndex : Option Nat
deriving DecidableEq

/-- The reasons of `CoverLaneCloseContext` (coverScheduler.ts:85). -/
inductive CloseReason
  | boundary
  | lateCleanup
deriving DecidableEq

/-- What the scheduler asks of its lanes, with the clock reading of the operation. -/
inductive Call
  | laneOpen (context : CoverLaneOpenContext) (now : Rat)
  | laneSend (request : CoverSendRequest)
  | laneClose (context : CoverLaneOpenContext) (reason : CloseReason) (now : Rat)
deriving DecidableEq

/-- `LaneRuntime` (coverScheduler.ts:155-160). -/
structure LaneRuntime where
  laneIndex : Nat
  openContext : CoverLaneOpenContext
  job : Option Nat
deriving DecidableEq

/-- `CycleRuntime` (coverScheduler.ts:162-168); `serial` is the identity of the object. -/
structure CycleRuntime extends CycleSpan where
  serial : Nat
  lanes : List LaneRuntime
  nextSlotOrdinal : Nat
deriving DecidableEq

/-- Which lanes can be opened and closed without a throw. -/
structure LaneFactory where
  opens : Int → Nat → Bool
  closes : Int → Nat → Bool

/-! ## The scheduler -/

/-- `CoverSchedulerStatus` (coverScheduler.ts:1-2). -/
inductive CoverSchedulerStatus
  | starting
  | active
  | degraded
  | suspended
  | stopped
deriving DecidableEq

/-- `TimerKind` (coverScheduler.ts:170), with the slot a slot timer is for. -/
inductive TimerKind
  | openBoundary
  | cycleBoundary
  | slot (slot : CoverSlot)
deriving DecidableEq

/-- The armed timer: its generation is the current one, since `disarm` clears it. -/
structure Timer where
  deadlineMs : Int
  kind : TimerKind
deriving DecidableEq

/-- What a slot waits for: an answer of `cancelCell`, of `nextCell`, of `makeDummy`,
the end of the turn with a request it has already, or the lane. -/
inductive Stage
  | cancelCell (runtime : Nat) (job : CoverJob)
  | nextCell (runtime : Nat) (job : CoverJob)
  | makeDummy (jobId : Option JsString)
  | ready (request : CoverSendRequest)
  | sending (request : CoverSendRequest)
deriving DecidableEq

/-- `CoverJobSlot` (coverScheduler.ts:40-44): the job a producer is asked for and the
index of its cell; the slot is the task's. -/
structure CoverJobSlot where
  runtime : Nat
  jobCellIndex : Nat
deriving DecidableEq

/-- A call of `sendSlot` that has not ended; its generation identifies it. `jobSlot` is
what the producers of the lane's job were asked with. -/
structure SlotTask where
  generation : Nat
  slot : CoverSlot
  cycleSerial : Nat
  jobSlot : Option CoverJobSlot
  stage : Stage
deriving DecidableEq

/-- `CoverScheduler` (coverScheduler.ts:205-228). -/
structure CoverScheduler where
  status : CoverSchedulerStatus
  running : Bool
  generation : Nat
  timer : Option Timer
  cycle : Option CycleRuntime
  cycles : Nat
  jobs : Jobs
  tasks : List SlotTask
  calls : List Call

/-- `CoverSchedulerOptions` (coverScheduler.ts:123-136). -/
structure CoverSchedulerOptions where
  schedule : CoverSchedule
  laneFactory : LaneFactory
  maxTimerDriftMs : Rat

/-- The constructor (coverScheduler.ts:230-257). -/
def CoverScheduler.new (options : CoverSchedulerOptions) : Except JsError CoverScheduler := do
  validateCoverSchedule options.schedule
  demand (¬ (options.maxTimerDriftMs < 0 ∨
      options.maxTimerDriftMs ≥ options.schedule.coverSlotSpacingMs))
    (failure "max timer drift must be non-negative and less than one slot")
  return {
    status := .stopped
    running := false
    generation := 0
    timer := none
    cycle := none
    cycles := 0
    jobs := .empty
    tasks := []
    calls := [] }

/-- Code of the scheduler. -/
abbrev SchedulerM := EStateM JsError CoverScheduler

/-! ## Methods: the job calls -/

/-- `enqueue` (coverScheduler.ts:267-298). -/
def enqueue (options : CoverSchedulerOptions) (job : CoverJob) : SchedulerM Unit := do
  let s ← get
  ensure (job.id.length ≠ 0) (failure "job id must not be empty")
  ensure (s.jobs.byId.has job.id = false) (failure "job id is already queued or admitted")
  attempt (assertSafeInteger "declared cell count" job.declaredCellCount)
  ensure (¬ (job.declaredCellCount < 1 ∨ job.declaredCellCount > options.schedule.slotsPerLane))
    (failure "job does not fit the configured F x D lane capacity")
  attempt (match job.priority with
    | some priority => assertSafeInteger "job priority" priority
    | none => .ok ())
  let sequence := s.jobs.runtimes.length
  let runtime : JobRuntime := {
    job, sequence
    state := .queued
    everAdmitted := false
    sentCells := 0
    cancelRequested := false
    cancelSent := false
    completed := false
    settled := false
    pendingCell := none
    pendingCancelCell := none }
  set { s with
    jobs := Jobs.sortQueue {
      runtimes := s.jobs.runtimes ++ [runtime]
      queued := s.jobs.queued ++ [sequence]
      byId := s.jobs.byId.set job.id sequence } }

/-- `CoverCancelResult` (coverScheduler.ts:138-139). -/
inductive CoverCancelResult
  | notFound
  | cancelledBeforeAdmission
  | cancelPending
deriving DecidableEq

/-- The runtime a live id names, unless it is settled. -/
def Jobs.live (jobs : Jobs) (jobId : JsString) : Option (Nat × JobRuntime) :=
  match jobs.byId.get jobId with
  | none => none
  | some runtime =>
    match jobs.get runtime with
    | none => none
    | some r => if r.settled then none else some (runtime, r)

/-- `cancel` (coverScheduler.ts:300-321). -/
def cancel (jobId : JsString) : SchedulerM CoverCancelResult := do
  let s ← get
  match s.jobs.live jobId with
  | none => return .notFound
  | some (runtime, r) =>
    if r.everAdmitted = false then
      set { s with jobs := (s.jobs.removeQueued runtime).settle runtime }
      return .cancelledBeforeAdmission
    else
      ensure (r.job.cancellable = true)
        (failure "an admitted cancellable job requires cancelCell")
      set { s with
        jobs := (s.jobs.update runtime fun r =>
          { r with cancelRequested := true, completed := false }).sortQueue }
      return .cancelPending

/-- `complete` (coverScheduler.ts:327-335). -/
def complete (jobId : JsString) : SchedulerM Bool := do
  let s ← get
  match s.jobs.live jobId with
  | none => return false
  | some (runtime, _) =>
    set { s with
      jobs := ((s.jobs.removeQueued runtime).update runtime fun r =>
        { r with completed := true, pendingCell := none }).settle runtime }
    return true

/-! ## Methods: status, timer and cycle -/

/-- `setStatus` (coverScheduler.ts:480-485). -/
def setStatus (status : CoverSchedulerStatus) : SchedulerM Unit := modify fun s => { s with status }

/-- `disarm` (coverScheduler.ts:495-502). -/
def disarm : SchedulerM Unit := modify fun s => { s with generation := s.generation + 1, timer := none }

/-- `arm` (coverScheduler.ts:504-537): the delay only says when the callback will run. -/
def arm (deadlineMs : Int) (kind : TimerKind) : SchedulerM Unit := do
  disarm
  modify fun s => { s with timer := some ⟨deadlineMs, kind⟩ }

/-- `armOpenBoundary` (coverScheduler.ts:539-543). -/
def armOpenBoundary (deadlineMs : Int) : SchedulerM Unit := arm deadlineMs .openBoundary

/-- `armCycleBoundary` (coverScheduler.ts:545-549). -/
def armCycleBoundary (deadlineMs : Int) : SchedulerM Unit := arm deadlineMs .cycleBoundary

/-- `armSlot` (coverScheduler.ts:551-556). -/
def armSlot (schedule : CoverSchedule) (cycle : CycleRuntime) : SchedulerM Unit :=
  let slot := slotAt schedule cycle.toCycleSpan cycle.nextSlotOrdinal
  arm slot.deadlineMs (.slot slot)

/-- The cycle with no job on any lane. -/
def CycleRuntime.idle (cycle : CycleRuntime) : CycleRuntime :=
  { cycle with lanes := cycle.lanes.map fun lane => { lane with job := none } }

/-- `interruptCycle` (coverScheduler.ts:846-853). -/
def interruptCycle : SchedulerM Unit := modify fun s =>
  match s.cycle with
  | none => s
  | some cycle => { s with
      cycle := some cycle.idle
      jobs := s.jobs.requeueAll (cycle.lanes.map (·.job)) }

/-- `finalizeCycleJobs` (coverScheduler.ts:855-871). -/
def finalizeCycleJobs : SchedulerM Unit := modify fun s =>
  match s.cycle with
  | none => s
  | some cycle => { s with
      cycle := some cycle.idle
      jobs := (cycle.lanes.map (·.job)).foldl (fun jobs runtime =>
        match runtime with
        | none => jobs
        | some runtime => jobs.finalize runtime) s.jobs }

/-- `closeCurrentCycle` (coverScheduler.ts:873-888). -/
def closeCurrentCycle (options : CoverSchedulerOptions) (reason : CloseReason) (now : Rat) :
    SchedulerM Bool := do
  let s ← get
  match s.cycle with
  | none => return true
  | some cycle =>
    let lanes := cycle.lanes.mergeSort fun left right => left.laneIndex ≤ right.laneIndex
    set { s with
      cycle := none
      calls := s.calls ++ lanes.map (fun lane : LaneRuntime =>
        Call.laneClose lane.openContext reason now) }
    return lanes.all fun lane => options.laneFactory.closes cycle.index lane.laneIndex

/-- `suspend` (coverScheduler.ts:351-365). -/
def suspend (options : CoverSchedulerOptions) (now : Rat) : SchedulerM Bool := do
  let s ← get
  if s.status = .stopped ∨ s.status = .suspended then return false
  else
    disarm
    setStatus .suspended
    match (← get).cycle with
    | none => return true
    | some cycle =>
      interruptCycle
      if now ≤ cycle.endMs then
        armCycleBoundary cycle.endMs
        return true
      else
        let _ ← closeCurrentCycle options .lateCleanup now
        return true

/-- A boundary handler threw (coverScheduler.ts:529-532, 911-913). -/
def handlerFailed (options : CoverSchedulerOptions) (now : Rat) : SchedulerM Unit := do
  let _ ← suspend options now
  return ()

/-- `start` (coverScheduler.ts:337-349). -/
def start (options : CoverSchedulerOptions) (now : Rat) : SchedulerM Bool := do
  let s ← get
  if s.status ≠ .stopped then return false
  else
    modify fun s => { s with running := true }
    setStatus .starting
    match (← get).cycle with
    | none =>
      armOpenBoundary (← attempt (nextCycleBoundary options.schedule now true))
      return true
    | some cycle =>
      armCycleBoundary cycle.endMs
      return true

/-- `resume` (coverScheduler.ts:367-381). -/
def resume (options : CoverSchedulerOptions) (now : Rat) : SchedulerM Bool := do
  let s ← get
  if s.status ≠ .suspended then return false
  else
    modify fun s => { s with running := true }
    disarm
    setStatus .starting
    match (← get).cycle with
    | none =>
      armOpenBoundary (← attempt (nextCycleBoundary options.schedule now false))
      return true
    | some cycle =>
      if now < cycle.endMs then
        armCycleBoundary cycle.endMs
        return true
      else
        let _ ← closeCurrentCycle options .lateCleanup now
        armOpenBoundary (← attempt (nextCycleBoundary options.schedule now false))
        return true

/-- Settle every job (coverScheduler.ts:393-400). -/
def settleAll : SchedulerM Unit := modify fun s => { s with
  jobs := (s.jobs.byId.entries.map Prod.snd).foldl
    (fun jobs runtime => (jobs.removeQueued runtime).settle runtime) s.jobs }

/-- `stop` (coverScheduler.ts:387-411). -/
def stop (options : CoverSchedulerOptions) (now : Rat) : SchedulerM Bool := do
  let s ← get
  if s.status = .stopped ∧ s.cycle = none then return false
  else
    modify fun s => { s with running := false }
    disarm
    setStatus .stopped
    settleAll
    match (← get).cycle with
    | none => return true
    | some cycle =>
      modify fun s => { s with cycle := s.cycle.map CycleRuntime.idle }
      if now ≤ cycle.endMs then
        armCycleBoundary cycle.endMs
        return true
      else
        let _ ← closeCurrentCycle options .lateCleanup now
        return true

/-- Wait for the next cycle, if the scheduler runs (coverScheduler.ts:843, 900-903). -/
def armNextCycle (options : CoverSchedulerOptions) (now : Rat) : SchedulerM Unit := do
  if (← get).running then
    armOpenBoundary (← attempt (nextCycleBoundary options.schedule now false))
  else return ()

/-- `degrade` (coverScheduler.ts:829-844). -/
def degrade (options : CoverSchedulerOptions) (now : Rat) : SchedulerM Unit := do
  let s ← get
  if s.status = .stopped ∨ s.status = .suspended then return ()
  else
    disarm
    setStatus .degraded
    match (← get).cycle with
    | none => armNextCycle options now
    | some cycle =>
      interruptCycle
      if now ≤ cycle.endMs then armCycleBoundary cycle.endMs
      else
        let _ ← closeCurrentCycle options .lateCleanup now
        armNextCycle options now

/-- The contexts of the lanes of a new cycle (coverScheduler.ts:604-612). -/
def laneContexts (jobs : Jobs) (cycle : CycleSpan) (selected : List (Option Nat)) :
    List LaneRuntime :=
  selected.mapIdx fun laneIndex runtime =>
    { laneIndex
      openContext := {
        cycle, laneIndex
        job := (runtime.bind jobs.get).map fun r =>
          ⟨r.job.id, r.job.kind, r.job.declaredCellCount⟩ }
      job := runtime }

/-- `openCycle` (coverScheduler.ts:575-653). -/
def openCycle (options : CoverSchedulerOptions) (boundaryMs : Int) (generation : Nat) (now : Rat) :
    SchedulerM Unit := do
  let s ← get
  if generation ≠ s.generation ∨ s.running = false ∨ s.status = .stopped ∨ s.status = .suspended
  then return ()
  else
    let cycleIndex ← attempt (cycleIndexAtBoundary options.schedule boundaryMs)
    let cycleEndMs := boundaryMs + options.schedule.cycleDurationMs
    ensure (SafeInteger cycleEndMs) (failure "cycle end is out of range")
    let (selected, jobs) := s.jobs.dequeueMany options.schedule.coverLanes
    let span : CycleSpan := ⟨cycleIndex, boundaryMs, cycleEndMs⟩
    let lanes := laneContexts (jobs.admitSelected selected) span selected
    let opened := lanes.filter fun lane => options.laneFactory.opens cycleIndex lane.laneIndex
    modify fun s => { s with
      jobs := jobs.admitSelected selected
      calls := s.calls ++ lanes.map fun lane => Call.laneOpen lane.openContext now
      cycle := some ⟨span, s.cycles, opened, 0⟩
      cycles := s.cycles + 1 }
    if opened.length ≠ lanes.length then
      setStatus .degraded
      modify fun s => { s with
        cycle := s.cycle.map CycleRuntime.idle
        jobs := s.jobs.requeueAll selected }
      armCycleBoundary cycleEndMs
    else
      setStatus .active
      match (← get).cycle with
      | some cycle => armSlot options.schedule cycle
      | none => return ()

/-- `handleCycleBoundary` (coverScheduler.ts:890-914). -/
def handleCycleBoundary (options : CoverSchedulerOptions) (boundaryMs : Int) (now : Rat) :
    SchedulerM Unit := do
  let s ← get
  match s.cycle with
  | none => return ()
  | some cycle =>
    if cycle.endMs ≠ boundaryMs then return ()
    else
      finalizeCycleJobs
      let closedCleanly ← closeCurrentCycle options .boundary now
      if closedCleanly = false then
        modify fun s => { s with status := if s.status = .stopped then .stopped else .degraded }
        armNextCycle options now
      else if s.running = false ∨ s.status = .stopped ∨ s.status = .suspended then return ()
      else recover (openCycle options boundaryMs s.generation now) (handlerFailed options now)

/-- `handleLateTimer` (coverScheduler.ts:558-573). -/
def handleLateTimer (options : CoverSchedulerOptions) (kind : TimerKind) (now : Rat) :
    SchedulerM Unit := do
  match kind with
  | .slot _ => degrade options now
  | _ =>
    interruptCycle
    let _ ← closeCurrentCycle options .lateCleanup now
    modify fun s => { s with status := if s.status = .stopped then .stopped else .suspended }

/-! ## A slot -/

/-- `jobSlot` (coverScheduler.ts:682-688), for the job of a lane. -/
def jobSlot (jobs : Jobs) (laneJob : Option Nat) : Option CoverJobSlot :=
  laneJob.bind fun runtime => (jobs.get runtime).map fun r => ⟨runtime, r.sentCells⟩

/-- The cell a slot starts to wait for (coverScheduler.ts:690-735). -/
def requestForSlot (jobs : Jobs) (laneJob : Option Nat) (slot : CoverSlot) : Stage :=
  match laneJob with
  | none => .makeDummy none
  | some runtime =>
    match jobs.get runtime with
    | none => .makeDummy none
    | some r =>
      if r.settled then .makeDummy (some r.job.id)
      else if r.cancelRequested ∧ r.cancelSent = false then
        match r.pendingCancelCell with
        | some cell => .ready ⟨cell, .cancel, slot, some r.job.id, some r.sentCells⟩
        | none => .cancelCell runtime r.job
      else if r.completed = false ∧ r.sentCells < r.job.declaredCellCount then
        match r.pendingCell with
        | some cell => .ready ⟨cell, .job r.job.kind, slot, some r.job.id, some r.sentCells⟩
        | none => .nextCell runtime r.job
      else .makeDummy (some r.job.id)

/-- What an answer makes of a waiting slot: a request, a wait for a dummy, or a failure. -/
inductive Produced
  | request (request : CoverSendRequest)
  | makeDummy (jobId : Option JsString)
  | failed

/-- The end of `requestForSlot`; an answer that is no cell fails `assertCell`, and `null`
from `nextCell` asks for a dummy instead. -/
def produced (jobs : Jobs) (slot : CoverSlot) (stage : Stage) (answer : Except Unit (Option Bytes)) :
    Produced :=
  match stage, answer with
  | .ready request, _ => .request request
  | .cancelCell runtime job, .ok (some cell) =>
    .request ⟨cell, .cancel, slot, some job.id, (jobs.get runtime).map (·.sentCells)⟩
  | .nextCell runtime job, .ok (some cell) =>
    .request ⟨cell, .job job.kind, slot, some job.id, (jobs.get runtime).map (·.sentCells)⟩
  | .nextCell _ job, .ok none => .makeDummy (some job.id)
  | .makeDummy jobId, .ok (some cell) => .request ⟨cell, .dummy, slot, jobId, none⟩
  | _, _ => .failed

/-- The job on the lane of a task: the lanes of a cycle that is gone have none. -/
def CoverScheduler.laneJob (s : CoverScheduler) (task : SlotTask) : Option Nat :=
  match s.cycle with
  | none => none
  | some cycle =>
    if cycle.serial = task.cycleSerial then
      (cycle.lanes.find? fun lane => lane.laneIndex = task.slot.laneIndex).bind (·.job)
    else none

/-- `cacheUnsent` (coverScheduler.ts:737-746): only the jobs change. -/
def CoverScheduler.cachedJobs (s : CoverScheduler) (task : SlotTask) (request : CoverSendRequest) :
    Jobs :=
  match (request.jobId.bind s.jobs.byId.get).or (s.laneJob task) with
  | none => s.jobs
  | some runtime =>
    s.jobs.update runtime fun r =>
      if r.settled then r
      else match request.source with
        | .cancel => { r with pendingCancelCell := some request.cell }
        | .job _ => { r with pendingCell := some request.cell }
        | .dummy => r

def cacheUnsent (task : SlotTask) (request : CoverSendRequest) : SchedulerM Unit :=
  modify fun s => { s with jobs := s.cachedJobs task request }

/-- `acceptSent` (coverScheduler.ts:748-771): only the jobs change. -/
def CoverScheduler.acceptedJobs (s : CoverScheduler) (task : SlotTask)
    (request : CoverSendRequest) : Jobs :=
  match s.laneJob task with
  | none => s.jobs
  | some runtime =>
    match s.jobs.get runtime with
    | none => s.jobs
    | some r =>
      if r.settled then s.jobs
      else match request.source with
        | .cancel =>
          (s.jobs.update runtime fun r =>
            { r with pendingCancelCell := none, cancelSent := true }).settle runtime
        | .job _ =>
          let jobs := s.jobs.update runtime fun r =>
            { r with pendingCell := none, sentCells := r.sentCells + 1 }
          if r.sentCells + 1 = r.job.declaredCellCount then
            (jobs.update runtime fun r => { r with completed := true }).settle runtime
          else jobs
        | .dummy => s.jobs

def acceptSent (task : SlotTask) (request : CoverSendRequest) : SchedulerM Unit :=
  modify fun s => { s with jobs := s.acceptedJobs task request }

/-- `sendSlot` up to its first wait (coverScheduler.ts:773-786). -/
def sendSlot (options : CoverSchedulerOptions) (slot : CoverSlot) (generation : Nat) (now : Rat) :
    SchedulerM Unit := do
  let s ← get
  match s.cycle with
  | none => return ()
  | some cycle =>
    if generation ≠ s.generation ∨ s.status ≠ .active then return ()
    else
      match cycle.lanes.find? fun lane => lane.laneIndex = slot.laneIndex with
      | none => degrade options now
      | some lane => modify fun s => { s with
          tasks := s.tasks ++ [⟨generation, slot, cycle.serial, jobSlot s.jobs lane.job,
            requestForSlot s.jobs lane.job slot⟩] }

/-- Take a task out of the list. -/
def endTask (task : SlotTask) : SchedulerM Unit :=
  modify fun s => { s with tasks := s.tasks.erase task }

/-- `sendSlot` after a producer's answer (coverScheduler.ts:784-803). -/
def cellProduced (options : CoverSchedulerOptions) (task : SlotTask)
    (answer : Except Unit (Option Bytes)) (now : Rat) : SchedulerM Unit := do
  endTask task
  let s ← get
  match produced s.jobs task.slot task.stage answer with
  | .failed => degrade options now
  | .makeDummy jobId => modify fun s => { s with
      tasks := s.tasks ++ [{ task with stage := .makeDummy jobId }] }
  | .request request =>
    if task.generation ≠ s.generation then cacheUnsent task request
    else if now > task.slot.deadlineMs + options.maxTimerDriftMs then
      cacheUnsent task request
      degrade options now
    else modify fun s => { s with
      calls := s.calls ++ [.laneSend request]
      tasks := s.tasks ++ [{ task with stage := .sending request }] }

/-- `sendSlot` after the lane's answer (coverScheduler.ts:802-827): `false` is
backpressure. -/
def cellSent (options : CoverSchedulerOptions) (task : SlotTask) (request : CoverSendRequest)
    (answer : Except Unit Bool) (now : Rat) : SchedulerM Unit := do
  endTask task
  match answer with
  | .error _ => do
    cacheUnsent task request
    degrade options now
  | .ok false => do
    cacheUnsent task request
    degrade options now
  | .ok true => do
    acceptSent task request
    let s ← get
    match s.cycle with
    | none => return ()
    | some cycle =>
      if task.generation ≠ s.generation ∨ cycle.serial ≠ task.cycleSerial then return ()
      else
        let cycle := { cycle with nextSlotOrdinal := cycle.nextSlotOrdinal + 1 }
        set { s with cycle := some cycle }
        if cycle.nextSlotOrdinal < options.schedule.totalCycleSlots then
          armSlot options.schedule cycle
        else armCycleBoundary cycle.endMs

/-- The timer's callback (coverScheduler.ts:517-533): early it arms the rest of the
delay, late it gives up the slot or the cycle. -/
def timerFired (options : CoverSchedulerOptions) (firedAt : Rat) : SchedulerM Unit := do
  let s ← get
  match s.timer with
  | none => return ()
  | some timer =>
    if firedAt < timer.deadlineMs then return ()
    else
      modify fun s => { s with timer := none }
      if firedAt > timer.deadlineMs + options.maxTimerDriftMs then
        handleLateTimer options timer.kind firedAt
      else
        match timer.kind with
        | .openBoundary =>
          recover (openCycle options timer.deadlineMs s.generation firedAt)
            (handlerFailed options firedAt)
        | .cycleBoundary => handleCycleBoundary options timer.deadlineMs firedAt
        | .slot slot => sendSlot options slot s.generation firedAt

end Cover

end P2Party
