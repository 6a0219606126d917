import P2Party.Cover.Scheduler

/-!
# The timeline of a cover schedule

What the lanes of a scheduler show to the outside, as a machine of its own: it has the
status, the timer and the current cycle of the scheduler and no jobs, and fills a slot
the moment its timer fires. `Quiet` relates a scheduler without a running slot to its
timeline, and every method of the scheduler simulates the timeline's.

- `Observation`, `Call.observe`: what is seen of a call on a lane;
- `Timeline` and its methods;
- `Quiet`, `Unarmed`, `UnarmedAt`: the relations;
- `suspend_simulates`, `openCycle_simulates`, ...: method by method.
-/

namespace P2Party

open Base

namespace Cover

/-! ## Observations -/

/-- What an observer of the lanes sees: when which lane of which cycle is opened and
closed, and the deadline, lane and length of every cell. -/
inductive Observation
  | opened (cycle : CycleSpan) (laneIndex : Nat) (time : Rat)
  | sent (deadlineMs : Int) (laneIndex cellLength : Nat)
  | closed (cycle : CycleSpan) (laneIndex : Nat) (reason : CloseReason) (time : Rat)
deriving DecidableEq

/-- What is seen of a call. -/
def Call.observe : Call → Observation
  | .laneOpen context now => .opened context.cycle context.laneIndex now
  | .laneSend request => .sent request.slot.deadlineMs request.slot.laneIndex request.cell.length
  | .laneClose context reason now => .closed context.cycle context.laneIndex reason now

/-- What has been seen of a scheduler. -/
def CoverScheduler.seen (s : CoverScheduler) : List Observation := s.calls.map Call.observe

/-! ## The timeline -/

/-- What the timer is for. -/
inductive Due
  | openBoundary
  | cycleBoundary
  | slot (ordinal : Nat)
deriving DecidableEq

/-- The schedule of the lanes without the jobs. -/
structure Timeline where
  status : CoverSchedulerStatus
  running : Bool
  timer : Option (Int × Due)
  cycle : Option CycleSpan
  seen : List Observation
deriving DecidableEq

/-- Code of the timeline. -/
abbrev TimelineM := EStateM JsError Timeline

/-- Every lane of a cycle opens. -/
def openings (schedule : CoverSchedule) (cycle : CycleSpan) (now : Rat) : List Observation :=
  (List.range schedule.coverLanes).map fun laneIndex => .opened cycle laneIndex now

/-- Every lane of a cycle closes. -/
def closings (schedule : CoverSchedule) (cycle : CycleSpan) (reason : CloseReason) (now : Rat) :
    List Observation :=
  (List.range schedule.coverLanes).map fun laneIndex => .closed cycle laneIndex reason now

/-- A slot is filled with a cell of the uniform length. -/
def filling (schedule : CoverSchedule) (cellLength : Nat) (cycle : CycleSpan) (ordinal : Nat) :
    Observation :=
  .sent (slotAt schedule cycle ordinal).deadlineMs (slotAt schedule cycle ordinal).laneIndex
    cellLength

namespace Timeline

variable (options : CoverSchedulerOptions) (cellLength : Nat)

/-- Before `start`. -/
def initial : Timeline := ⟨.stopped, false, none, none, []⟩

def setStatus (status : CoverSchedulerStatus) : TimelineM Unit := modify fun t => { t with status }

def disarm : TimelineM Unit := modify fun t => { t with timer := none }

def arm (deadlineMs : Int) (due : Due) : TimelineM Unit :=
  modify fun t => { t with timer := some (deadlineMs, due) }

/-- What comes next in a cycle: a slot, or its end after the last one. -/
def dueAfter (cycle : CycleSpan) (ordinal : Nat) : Int × Due :=
  if ordinal < options.schedule.totalCycleSlots then
    ((slotAt options.schedule cycle ordinal).deadlineMs, .slot ordinal)
  else (cycle.endMs, .cycleBoundary)

def armNextCycle (now : Rat) : TimelineM Unit := do
  if (← get).running then
    arm (← attempt (nextCycleBoundary options.schedule now false)) .openBoundary
  else return ()

def closeCurrentCycle (reason : CloseReason) (now : Rat) : TimelineM Bool := do
  let t ← get
  match t.cycle with
  | none => return true
  | some cycle =>
    set { t with
      cycle := none
      seen := t.seen ++ closings options.schedule cycle reason now }
    return true

def suspend (now : Rat) : TimelineM Bool := do
  let t ← get
  if t.status = .stopped ∨ t.status = .suspended then return false
  else
    disarm
    setStatus .suspended
    match (← get).cycle with
    | none => return true
    | some cycle =>
      if now ≤ cycle.endMs then
        arm cycle.endMs .cycleBoundary
        return true
      else
        let _ ← closeCurrentCycle options .lateCleanup now
        return true

def handlerFailed (now : Rat) : TimelineM Unit := do
  let _ ← suspend options now
  return ()

def start (now : Rat) : TimelineM Bool := do
  let t ← get
  if t.status ≠ .stopped then return false
  else
    modify fun t => { t with running := true }
    setStatus .starting
    match (← get).cycle with
    | none =>
      arm (← attempt (nextCycleBoundary options.schedule now true)) .openBoundary
      return true
    | some cycle =>
      arm cycle.endMs .cycleBoundary
      return true

def resume (now : Rat) : TimelineM Bool := do
  let t ← get
  if t.status ≠ .suspended then return false
  else
    modify fun t => { t with running := true }
    disarm
    setStatus .starting
    match (← get).cycle with
    | none =>
      arm (← attempt (nextCycleBoundary options.schedule now false)) .openBoundary
      return true
    | some cycle =>
      if now < cycle.endMs then
        arm cycle.endMs .cycleBoundary
        return true
      else
        let _ ← closeCurrentCycle options .lateCleanup now
        arm (← attempt (nextCycleBoundary options.schedule now false)) .openBoundary
        return true

def stop (now : Rat) : TimelineM Bool := do
  let t ← get
  if t.status = .stopped ∧ t.cycle = none then return false
  else
    modify fun t => { t with running := false }
    disarm
    setStatus .stopped
    match (← get).cycle with
    | none => return true
    | some cycle =>
      if now ≤ cycle.endMs then
        arm cycle.endMs .cycleBoundary
        return true
      else
        let _ ← closeCurrentCycle options .lateCleanup now
        return true

def degrade (now : Rat) : TimelineM Unit := do
  let t ← get
  if t.status = .stopped ∨ t.status = .suspended then return ()
  else
    disarm
    setStatus .degraded
    match (← get).cycle with
    | none => armNextCycle options now
    | some cycle =>
      if now ≤ cycle.endMs then arm cycle.endMs .cycleBoundary
      else
        let _ ← closeCurrentCycle options .lateCleanup now
        armNextCycle options now

/-- Open every lane and wait for the first slot. -/
def openCycle (boundaryMs : Int) (now : Rat) : TimelineM Unit := do
  let t ← get
  if t.running = false ∨ t.status = .stopped ∨ t.status = .suspended then return ()
  else
    let cycleIndex ← attempt (cycleIndexAtBoundary options.schedule boundaryMs)
    let cycleEndMs := boundaryMs + options.schedule.cycleDurationMs
    ensure (SafeInteger cycleEndMs) (failure "cycle end is out of range")
    let span : CycleSpan := ⟨cycleIndex, boundaryMs, cycleEndMs⟩
    modify fun t => { t with
      seen := t.seen ++ openings options.schedule span now
      cycle := some span }
    setStatus .active
    arm (slotAt options.schedule span 0).deadlineMs (.slot 0)

def handleCycleBoundary (boundaryMs : Int) (now : Rat) : TimelineM Unit := do
  let t ← get
  match t.cycle with
  | none => return ()
  | some cycle =>
    if cycle.endMs ≠ boundaryMs then return ()
    else
      let _ ← closeCurrentCycle options .boundary now
      if t.running = false ∨ t.status = .stopped ∨ t.status = .suspended then return ()
      else recover (openCycle options boundaryMs now) (handlerFailed options now)

def handleLateTimer (due : Due) (now : Rat) : TimelineM Unit := do
  match due with
  | .slot _ => degrade options now
  | _ =>
    let _ ← closeCurrentCycle options .lateCleanup now
    modify fun t => { t with status := if t.status = .stopped then .stopped else .suspended }

/-- Fill a slot and wait for the next one. -/
def sendSlot (ordinal : Nat) : TimelineM Unit := do
  let t ← get
  match t.cycle with
  | none => return ()
  | some cycle =>
    if t.status ≠ .active then return ()
    else
      modify fun t => { t with
        timer := some (dueAfter options cycle (ordinal + 1))
        seen := t.seen ++ [filling options.schedule cellLength cycle ordinal] }

def timerFired (firedAt : Rat) : TimelineM Unit := do
  let t ← get
  match t.timer with
  | none => return ()
  | some (deadlineMs, due) =>
    if firedAt < deadlineMs then return ()
    else
      disarm
      if firedAt > deadlineMs + options.maxTimerDriftMs then handleLateTimer options due firedAt
      else
        match due with
        | .openBoundary =>
          recover (openCycle options deadlineMs firedAt) (handlerFailed options firedAt)
        | .cycleBoundary => handleCycleBoundary options deadlineMs firedAt
        | .slot ordinal => sendSlot options cellLength ordinal

end Timeline

/-! ## Cached cells -/

/-- The cached cells of a runtime have the uniform length. -/
def JobRuntime.Uniform (cellLength : Nat) (r : JobRuntime) : Prop :=
  (∀ cell ∈ r.pendingCell, cell.length = cellLength) ∧
    ∀ cell ∈ r.pendingCancelCell, cell.length = cellLength

namespace Jobs

variable {cellLength : Nat} {jobs : Jobs}

/-- Every cached cell has the uniform length. -/
def Uniform (cellLength : Nat) (jobs : Jobs) : Prop := ∀ r ∈ jobs.runtimes, r.Uniform cellLength

theorem Uniform.update (h : jobs.Uniform cellLength) (runtime : Nat) {f : JobRuntime → JobRuntime}
    (hf : ∀ r, r.Uniform cellLength → (f r).Uniform cellLength) :
    (jobs.update runtime f).Uniform cellLength := by
  intro r hr
  obtain ⟨i, hi, rfl⟩ := List.mem_iff_getElem.mp hr
  have hlen : i < jobs.runtimes.length := by
    rw [Jobs.update, List.length_modify] at hi
    exact hi
  have hold := h _ (List.getElem_mem hlen)
  simp only [Jobs.update, List.getElem_modify]
  split
  · exact hf _ hold
  · exact hold

theorem Uniform.sortQueue (h : jobs.Uniform cellLength) : jobs.sortQueue.Uniform cellLength := h

theorem Uniform.removeQueued (h : jobs.Uniform cellLength) (runtime : Nat) :
    (jobs.removeQueued runtime).Uniform cellLength := h

theorem Uniform.requeue (h : jobs.Uniform cellLength) (runtime : Nat) :
    (jobs.requeue runtime).Uniform cellLength := by
  unfold Jobs.requeue
  split
  · exact h
  · split
    · exact h
    · have hstate := h.update runtime (f := fun r => { r with state := .queued }) fun _ hr => hr
      refine Uniform.sortQueue ?_
      split
      · exact hstate
      · exact hstate

theorem Uniform.settle (h : jobs.Uniform cellLength) (runtime : Nat) :
    (jobs.settle runtime).Uniform cellLength := by
  unfold Jobs.settle
  split
  · exact h
  · split
    · exact h
    · have hstate := (h.update runtime (f := fun r => { r with settled := true, state := .terminal })
        fun _ hr => hr).removeQueued runtime
      simp only
      split
      · exact hstate
      · exact hstate

theorem Uniform.finalize (h : jobs.Uniform cellLength) (runtime : Nat) :
    (jobs.finalize runtime).Uniform cellLength := by
  unfold Jobs.finalize
  split
  · exact h
  · split
    · exact h
    · split
      · exact h.requeue runtime
      · exact h.settle runtime

/-- A loop over the jobs of the lanes keeps what each turn keeps. -/
theorem Uniform.foldl {α : Type} {f : Jobs → α → Jobs}
    (hf : ∀ jobs a, jobs.Uniform cellLength → (f jobs a).Uniform cellLength) (as : List α)
    (h : jobs.Uniform cellLength) : (as.foldl f jobs).Uniform cellLength := by
  induction as generalizing jobs with
  | nil => exact h
  | cons a as ih => exact ih (hf jobs a h)

theorem Uniform.requeueAll (h : jobs.Uniform cellLength) (runtimes : List (Option Nat)) :
    (jobs.requeueAll runtimes).Uniform cellLength := by
  refine Uniform.foldl (fun jobs runtime hjobs => ?_) runtimes h
  cases runtime with
  | none => exact hjobs
  | some runtime => exact hjobs.requeue runtime

theorem Uniform.admitSelected (h : jobs.Uniform cellLength) (runtimes : List (Option Nat)) :
    (jobs.admitSelected runtimes).Uniform cellLength := by
  refine Uniform.foldl (fun jobs runtime hjobs => ?_) runtimes h
  cases runtime with
  | none => exact hjobs
  | some runtime => exact hjobs.update runtime fun _ hr => hr

theorem dequeueMany_runtimes (count : Nat) (jobs : Jobs) :
    (jobs.dequeueMany count).2.runtimes = jobs.runtimes ∧
      (jobs.dequeueMany count).1.length = count := by
  induction count generalizing jobs with
  | zero => exact ⟨rfl, rfl⟩
  | succ count ih =>
    obtain ⟨hruntimes, hlength⟩ := ih jobs.dequeue.2
    refine ⟨?_, congrArg (· + 1) hlength⟩
    show (Jobs.dequeueMany count jobs.dequeue.2).2.runtimes = _
    rw [hruntimes]
    unfold Jobs.dequeue
    split <;> rfl

end Jobs

/-! ## The relations -/

/-- The cell of a slot that is ready is for that slot and has the uniform length. -/
def Stage.Uniform (cellLength : Nat) (slot : CoverSlot) : Stage → Prop
  | .ready request => request.slot = slot ∧ request.cell.length = cellLength
  | _ => True

/-- One lane per index, each opened for its cycle. -/
def LanesOf (schedule : CoverSchedule) (cycle : CycleRuntime) : Prop :=
  cycle.lanes.map (fun lane => (lane.laneIndex, lane.openContext.cycle,
      lane.openContext.laneIndex)) =
    (List.range schedule.coverLanes).map fun laneIndex => (laneIndex, cycle.toCycleSpan, laneIndex)

/-- The timers of a scheduler and its timeline. -/
inductive TimerMatches (schedule : CoverSchedule) :
    Option CycleRuntime → Option Timer → Option (Int × Due) → Prop
  | unarmed {cycle : Option CycleRuntime} : TimerMatches schedule cycle none none
  | openBoundary {cycle : Option CycleRuntime} {deadlineMs : Int} :
      TimerMatches schedule cycle (some ⟨deadlineMs, .openBoundary⟩)
        (some (deadlineMs, .openBoundary))
  | cycleBoundary {cycle : Option CycleRuntime} {deadlineMs : Int} :
      TimerMatches schedule cycle (some ⟨deadlineMs, .cycleBoundary⟩)
        (some (deadlineMs, .cycleBoundary))
  | slot {cycle : CycleRuntime} :
      TimerMatches schedule (some cycle)
        (some ⟨(slotAt schedule cycle.toCycleSpan cycle.nextSlotOrdinal).deadlineMs,
          .slot (slotAt schedule cycle.toCycleSpan cycle.nextSlotOrdinal)⟩)
        (some ((slotAt schedule cycle.toCycleSpan cycle.nextSlotOrdinal).deadlineMs,
          .slot cycle.nextSlotOrdinal))

/-- A scheduler shows what its timeline shows, and no slot of the current generation
is running. -/
structure Shown (options : CoverSchedulerOptions) (cellLength : Nat) (s : CoverScheduler)
    (t : Timeline) : Prop where
  status : s.status = t.status
  running : s.running = t.running
  cycle : s.cycle.map (·.toCycleSpan) = t.cycle
  seen : s.seen = t.seen
  lanes : ∀ cycle ∈ s.cycle, LanesOf options.schedule cycle
  stale : ∀ task ∈ s.tasks, task.generation < s.generation
  jobs : s.jobs.Uniform cellLength
  stages : ∀ task ∈ s.tasks, task.stage.Uniform cellLength task.slot

/-- `Shown`, and neither timer is armed. -/
def Unarmed (options : CoverSchedulerOptions) (cellLength : Nat) (s : CoverScheduler)
    (t : Timeline) : Prop :=
  Shown options cellLength s t ∧ s.timer = none ∧ t.timer = none

/-- `Unarmed`, in a given generation. -/
def UnarmedAt (options : CoverSchedulerOptions) (cellLength generation : Nat) (s : CoverScheduler)
    (t : Timeline) : Prop :=
  Unarmed options cellLength s t ∧ generation = s.generation

/-- `Shown`, and the timers match. -/
def Quiet (options : CoverSchedulerOptions) (cellLength : Nat) (s : CoverScheduler)
    (t : Timeline) : Prop :=
  Shown options cellLength s t ∧ TimerMatches options.schedule s.cycle s.timer t.timer

section Relations

variable {options : CoverSchedulerOptions} {cellLength : Nat} {s : CoverScheduler} {t : Timeline}

theorem Unarmed.quiet (h : Unarmed options cellLength s t) : Quiet options cellLength s t := by
  obtain ⟨hshown, hs, ht⟩ := h
  refine ⟨hshown, ?_⟩
  rw [hs, ht]
  exact .unarmed

/-- Disarming leaves no timer, and every slot stale. -/
theorem Shown.disarmed (h : Shown options cellLength s t) :
    Unarmed options cellLength { s with generation := s.generation + 1, timer := none }
      { t with timer := none } :=
  ⟨⟨h.status, h.running, h.cycle, h.seen, h.lanes, fun task htask =>
    Nat.lt_succ_of_lt (h.stale task htask), h.jobs, h.stages⟩, rfl, rfl⟩

theorem Unarmed.withStatus (h : Unarmed options cellLength s t) (status : CoverSchedulerStatus) :
    Unarmed options cellLength { s with status } { t with status } :=
  ⟨⟨rfl, h.1.running, h.1.cycle, h.1.seen, h.1.lanes, h.1.stale, h.1.jobs, h.1.stages⟩, h.2⟩

theorem LanesOf.idle {schedule : CoverSchedule} {cycle : CycleRuntime}
    (h : LanesOf schedule cycle) : LanesOf schedule cycle.idle := by
  unfold LanesOf CycleRuntime.idle at *
  rw [List.map_map]
  exact h

/-- Taking the jobs off the lanes shows nothing. -/
theorem Unarmed.idle (h : Unarmed options cellLength s t) {jobs : Jobs}
    (hjobs : jobs.Uniform cellLength) :
    Unarmed options cellLength { s with cycle := s.cycle.map CycleRuntime.idle, jobs } t := by
  refine ⟨⟨h.1.status, h.1.running, ?_, h.1.seen, ?_, h.1.stale, hjobs, h.1.stages⟩, h.2⟩
  · rw [← h.1.cycle]
    cases s.cycle <;> rfl
  · intro cycle hcycle
    cases hold : s.cycle with
    | none =>
      rw [hold] at hcycle
      cases hcycle
    | some c =>
      rw [hold] at hcycle
      cases hcycle
      exact (h.1.lanes c hold).idle

end Relations

/-- Is the cell of the slot with its lane already? -/
def Stage.isSending : Stage → Bool
  | .sending _ => true
  | _ => false

/-- A slot is running: its timeline has filled it and waits for the next one. -/
structure Live (options : CoverSchedulerOptions) (cellLength : Nat) (s : CoverScheduler)
    (t : Timeline) (task : SlotTask) (cycle : CycleRuntime) : Prop where
  active : s.status = .active
  status : s.status = t.status
  running : s.running = t.running
  current : s.cycle = some cycle
  span : t.cycle = some cycle.toCycleSpan
  unarmed : s.timer = none
  timer : t.timer = some (Timeline.dueAfter options cycle.toCycleSpan (cycle.nextSlotOrdinal + 1))
  seen : t.seen = s.seen ++ if task.stage.isSending then [] else
    [filling options.schedule cellLength cycle.toCycleSpan cycle.nextSlotOrdinal]
  mem : task ∈ s.tasks
  generation : task.generation = s.generation
  serial : cycle.serial = task.cycleSerial
  slot : task.slot = slotAt options.schedule cycle.toCycleSpan cycle.nextSlotOrdinal
  lanes : LanesOf options.schedule cycle
  stale : ∀ other ∈ s.tasks.erase task, other.generation < s.generation
  jobs : s.jobs.Uniform cellLength
  stages : ∀ task ∈ s.tasks, task.stage.Uniform cellLength task.slot

/-- No slot is running, or one that only waits for its lane. -/
def Settled (options : CoverSchedulerOptions) (cellLength : Nat) (s : CoverScheduler)
    (t : Timeline) : Prop :=
  Quiet options cellLength s t ∨
    ∃ task cycle, Live options cellLength s t task cycle ∧ task.stage.isSending = true

/-- A factory whose lanes open and close without a throw. -/
def LaneFactory.Reliable (factory : LaneFactory) : Prop :=
  ∀ cycleIndex laneIndex, factory.opens cycleIndex laneIndex = true ∧
    factory.closes cycleIndex laneIndex = true

section Methods

variable {options : CoverSchedulerOptions} {cellLength : Nat}

/-- Disarming a settled scheduler. -/
theorem Settled.disarmed {s : CoverScheduler} {t : Timeline} (h : Settled options cellLength s t) :
    Unarmed options cellLength { s with generation := s.generation + 1, timer := none }
      { t with timer := none } := by
  rcases h with h | ⟨task, cycle, h, hsending⟩
  · exact h.1.disarmed
  · refine ⟨⟨h.status, h.running, ?_, ?_, ?_, ?_, h.jobs, h.stages⟩, rfl, rfl⟩
    · rw [h.span, h.current]
      rfl
    · have hseen := h.seen
      rw [if_pos hsending, List.append_nil] at hseen
      exact hseen.symm
    · intro c hc
      rw [h.current] at hc
      cases hc
      exact h.lanes
    · intro other hother
      by_cases heq : other = task
      · rw [heq, h.generation]
        exact Nat.lt_succ_self _
      · exact Nat.lt_succ_of_lt (h.stale other ((List.mem_erase_of_ne heq).mpr hother))

theorem disarm_simulates {P : CoverScheduler → Timeline → Prop}
    (hP : ∀ s t, P s t → Settled options cellLength s t) :
    Simulates P (Unarmed options cellLength) disarm Timeline.disarm :=
  Simulates.change_last fun s t h => (hP s t h).disarmed

theorem setStatus_simulates (status : CoverSchedulerStatus) :
    Simulates (Unarmed options cellLength) (Unarmed options cellLength) (setStatus status)
      (Timeline.setStatus status) := Simulates.change_last fun _ _ h => h.withStatus status

/-- Arming a boundary, from any settled state. -/
theorem arm_simulates {kind : TimerKind} {due : Due} (deadlineMs : Int)
    (hmatch : ∀ cycle, TimerMatches options.schedule cycle (some ⟨deadlineMs, kind⟩)
      (some (deadlineMs, due))) :
    Simulates (Settled options cellLength) (Quiet options cellLength) (arm deadlineMs kind)
      (Timeline.arm deadlineMs due) := by
  intro s t h
  refine ⟨rfl, ?_⟩
  obtain ⟨hshown, -, -⟩ := h.disarmed
  exact ⟨⟨hshown.status, hshown.running, hshown.cycle, hshown.seen, hshown.lanes, hshown.stale,
    hshown.jobs, hshown.stages⟩, hmatch _⟩

theorem armCycleBoundary_simulates (deadlineMs : Int) :
    Simulates (Unarmed options cellLength) (Quiet options cellLength) (armCycleBoundary deadlineMs)
      (Timeline.arm deadlineMs .cycleBoundary) :=
  (arm_simulates deadlineMs fun _ => .cycleBoundary).mono (fun _ _ h => .inl h.quiet) fun _ _ h => h

theorem armOpenBoundary_simulates (deadlineMs : Int) :
    Simulates (Unarmed options cellLength) (Quiet options cellLength) (armOpenBoundary deadlineMs)
      (Timeline.arm deadlineMs .openBoundary) :=
  (arm_simulates deadlineMs fun _ => .openBoundary).mono (fun _ _ h => .inl h.quiet) fun _ _ h => h

theorem interruptCycle_silent {m : SchedulerM α} {n : TimelineM α}
    {R : CoverScheduler → Timeline → Prop} (hm : Simulates (Unarmed options cellLength) R m n) :
    Simulates (Unarmed options cellLength) R (interruptCycle >>= fun _ => m) n := by
  refine Simulates.silent (fun s t h => ?_) hm
  cases hcycle : s.cycle with
  | none => exact h
  | some cycle =>
    have hidle := h.idle (h.1.jobs.requeueAll (cycle.lanes.map (·.job)))
    rw [hcycle] at hidle
    exact hidle

/-- The lanes of a cycle stand in the order of their index. -/
theorem LanesOf.sorted {schedule : CoverSchedule} {cycle : CycleRuntime}
    (h : LanesOf schedule cycle) :
    (cycle.lanes.mergeSort fun left right => decide (left.laneIndex ≤ right.laneIndex)) =
      cycle.lanes := by
  refine List.mergeSort_of_pairwise ?_
  have hindices : cycle.lanes.map (·.laneIndex) = List.range schedule.coverLanes := by
    have hfirst := congrArg (List.map Prod.fst) h
    rw [List.map_map, List.map_map] at hfirst
    simpa [Function.comp_def] using hfirst
  have hsorted : (cycle.lanes.map (·.laneIndex)).Pairwise (· ≤ ·) := by
    rw [hindices]
    exact List.pairwise_le_range
  rw [List.pairwise_map] at hsorted
  exact hsorted.imp fun hle => decide_eq_true hle

theorem LanesOf.closings {cycle : CycleRuntime} (h : LanesOf options.schedule cycle)
    (reason : CloseReason) (now : Rat) :
    (cycle.lanes.map fun lane => Call.laneClose lane.openContext reason now).map Call.observe =
      closings options.schedule cycle.toCycleSpan reason now := by
  have hmap := congrArg (List.map fun x : Nat × CycleSpan × Nat =>
    Observation.closed x.2.1 x.2.2 reason now) h
  rw [List.map_map, List.map_map] at hmap
  rw [List.map_map]
  exact hmap

theorem closeCurrentCycle_keeps (hlanes : options.laneFactory.Reliable) (generation : Nat)
    (reason : CloseReason) (now : Rat) :
    Simulates (UnarmedAt options cellLength generation) (UnarmedAt options cellLength generation)
      (closeCurrentCycle options reason now) (Timeline.closeCurrentCycle options reason now) := by
  rintro s t ⟨h, hgeneration⟩
  have hcycle := h.1.cycle
  unfold closeCurrentCycle Timeline.closeCurrentCycle
  rw [run_get_bind, run_get_bind]
  cases hs : s.cycle with
  | none =>
    rw [hs] at hcycle
    rw [← hcycle]
    exact ⟨rfl, h, hgeneration⟩
  | some cycle =>
    rw [hs] at hcycle
    have hof := h.1.lanes cycle hs
    rw [← hcycle]
    simp only [Option.map_some, hof.sorted]
    refine ⟨?_, ⟨⟨h.1.status, h.1.running, rfl, ?_, nofun, h.1.stale, h.1.jobs, h.1.stages⟩, h.2⟩,
      hgeneration⟩
    · exact List.all_eq_true.mpr fun lane _ => (hlanes cycle.index lane.laneIndex).2
    · show (s.calls ++ _).map Call.observe = t.seen ++ _
      rw [List.map_append, hof.closings, ← h.1.seen]
      rfl

theorem closeCurrentCycle_simulates (hlanes : options.laneFactory.Reliable) (reason : CloseReason)
    (now : Rat) :
    Simulates (Unarmed options cellLength) (Unarmed options cellLength)
      (closeCurrentCycle options reason now) (Timeline.closeCurrentCycle options reason now) :=
  fun s t h => (closeCurrentCycle_keeps hlanes s.generation reason now s t ⟨h, rfl⟩).mono
    fun _ _ hpost => hpost.1

/-- The timeline closes every cycle cleanly. -/
theorem Timeline.closeCurrentCycle_true (reason : CloseReason) (now : Rat) (t : Timeline)
    (clean : Bool) (t' : Timeline)
    (h : (Timeline.closeCurrentCycle options reason now).run t = .ok clean t') : clean = true := by
  unfold Timeline.closeCurrentCycle at h
  rw [run_get_bind] at h
  cases hcycle : t.cycle with
  | none =>
    rw [hcycle] at h
    cases h
    rfl
  | some cycle =>
    rw [hcycle] at h
    cases h
    rfl

/-- Both sides look at the current cycle. -/
theorem onCycle {P R : CoverScheduler → Timeline → Prop} {m : SchedulerM α} {n : TimelineM α}
    {f : CycleRuntime → SchedulerM α} {g : CycleSpan → TimelineM α}
    (hP : ∀ s t, P s t → s.cycle.map (·.toCycleSpan) = t.cycle) (hnone : Simulates P R m n)
    (hsome : ∀ cycle, Simulates P R (f cycle) (g cycle.toCycleSpan)) :
    Simulates P R (get >>= fun s => match s.cycle with | none => m | some cycle => f cycle)
      (get >>= fun t => match t.cycle with | none => n | some cycle => g cycle) := by
  intro s t h
  have hcycle := hP s t h
  rw [run_get_bind, run_get_bind]
  cases hs : s.cycle with
  | none =>
    rw [hs] at hcycle
    rw [← hcycle]
    exact hnone s t h
  | some cycle =>
    rw [hs] at hcycle
    rw [← hcycle]
    exact hsome cycle s t h

theorem unarmed_cycle (s : CoverScheduler) (t : Timeline) (h : Unarmed options cellLength s t) :
    s.cycle.map (·.toCycleSpan) = t.cycle := h.1.cycle

theorem unarmed_quiet (s : CoverScheduler) (t : Timeline) (h : Unarmed options cellLength s t) :
    Quiet options cellLength s t := h.quiet

/-- Arm the boundary of the open cycle and return. -/
theorem armBoundary_return (deadlineMs : Int) (a : α) :
    Simulates (Unarmed options cellLength) (Quiet options cellLength)
      (armCycleBoundary deadlineMs >>= fun _ => pure a)
      (Timeline.arm deadlineMs .cycleBoundary >>= fun _ => pure a) :=
  Simulates.bind (fun _ _ h => h) (armCycleBoundary_simulates deadlineMs) fun _ =>
    Simulates.pure a fun _ _ h => h

/-- Arm the opening of the next cycle and return. -/
theorem armOpening_return (now : Rat) (inclusive : Bool) (a : α) :
    Simulates (Unarmed options cellLength) (Quiet options cellLength)
      (attempt (nextCycleBoundary options.schedule now inclusive) >>= fun boundary =>
        armOpenBoundary boundary >>= fun _ => pure a)
      (attempt (nextCycleBoundary options.schedule now inclusive) >>= fun boundary =>
        Timeline.arm boundary .openBoundary >>= fun _ => pure a) :=
  Simulates.attempt unarmed_quiet fun boundary =>
    Simulates.bind (fun _ _ h => h) (armOpenBoundary_simulates boundary) fun _ =>
      Simulates.pure a fun _ _ h => h

/-- The end of `suspend` and `stop`: the open cycle waits for its boundary or is closed. -/
theorem leaveCycle_simulates (hlanes : options.laneFactory.Reliable) (endMs : Int) (now : Rat) :
    Simulates (Unarmed options cellLength) (Quiet options cellLength)
      (if now ≤ endMs then armCycleBoundary endMs >>= fun _ => pure true
        else closeCurrentCycle options .lateCleanup now >>= fun _ => pure true)
      (if now ≤ endMs then Timeline.arm endMs .cycleBoundary >>= fun _ => pure true
        else Timeline.closeCurrentCycle options .lateCleanup now >>= fun _ => pure true) :=
  Simulates.ite (fun _ => armBoundary_return endMs true) fun _ =>
    Simulates.bind unarmed_quiet (closeCurrentCycle_simulates hlanes _ now) fun _ =>
      Simulates.pure true unarmed_quiet

theorem Settled.status {s : CoverScheduler} {t : Timeline} (h : Settled options cellLength s t) :
    s.status = t.status := by
  rcases h with h | ⟨task, cycle, h, -⟩
  · exact h.1.status
  · exact h.status

/-- A settled scheduler that is not active has no slot running. -/
theorem Settled.quiet {s : CoverScheduler} {t : Timeline} (h : Settled options cellLength s t)
    (hidle : t.status ≠ .active) : Quiet options cellLength s t := by
  rcases h with h | ⟨task, cycle, h, -⟩
  · exact h
  · exact absurd (h.status.symm.trans h.active) hidle

theorem suspend_simulates (hlanes : options.laneFactory.Reliable) (now : Rat) :
    Simulates (Settled options cellLength) (Quiet options cellLength) (suspend options now)
      (Timeline.suspend options now) := by
  refine Simulates.read fun s t h => ?_
  rw [h.status]
  refine Simulates.ite (fun hoff => ?_) fun _ => ?_
  · refine Simulates.pure false ?_
    rintro s' t' ⟨hsettled, -, rfl⟩
    refine hsettled.quiet ?_
    rcases hoff with hoff | hoff <;> rw [hoff] <;> decide
  · refine Simulates.bind unarmed_quiet (disarm_simulates fun _ _ hpre => hpre.1) fun _ => ?_
    refine Simulates.bind unarmed_quiet (setStatus_simulates .suspended) fun _ => ?_
    refine onCycle unarmed_cycle (Simulates.pure true unarmed_quiet) fun cycle =>
      interruptCycle_silent ?_
    exact leaveCycle_simulates hlanes cycle.endMs now

theorem handlerFailed_simulates (hlanes : options.laneFactory.Reliable) (now : Rat) :
    Simulates (Quiet options cellLength) (Quiet options cellLength) (handlerFailed options now)
      (Timeline.handlerFailed options now) :=
  Simulates.bind (fun _ _ h => h) ((suspend_simulates hlanes now).mono (fun _ _ h => .inl h)
    fun _ _ h => h) fun _ => Simulates.pure () fun _ _ h => h

/-- Starting and stopping show in both. -/
theorem Settled.withRunning {s : CoverScheduler} {t : Timeline} (h : Settled options cellLength s t)
    (running : Bool) : Settled options cellLength { s with running } { t with running } := by
  rcases h with ⟨h, htimer⟩ | ⟨task, cycle, h, hsending⟩
  · exact .inl ⟨⟨h.status, rfl, h.cycle, h.seen, h.lanes, h.stale, h.jobs, h.stages⟩, htimer⟩
  · exact .inr ⟨task, cycle, ⟨h.active, h.status, rfl, h.current, h.span, h.unarmed, h.timer, h.seen,
      h.mem, h.generation, h.serial, h.slot, h.lanes, h.stale, h.jobs, h.stages⟩, hsending⟩

theorem settleAll_silent {m : SchedulerM α} {n : TimelineM α}
    {R : CoverScheduler → Timeline → Prop} (hm : Simulates (Unarmed options cellLength) R m n) :
    Simulates (Unarmed options cellLength) R (settleAll >>= fun _ => m) n := by
  refine Simulates.silent (fun s t h => ?_) hm
  refine ⟨⟨h.1.status, h.1.running, h.1.cycle, h.1.seen, h.1.lanes, h.1.stale, ?_, h.1.stages⟩, h.2⟩
  exact Jobs.Uniform.foldl (fun jobs runtime hjobs => (hjobs.removeQueued runtime).settle runtime) _
    h.1.jobs

theorem stop_simulates (hlanes : options.laneFactory.Reliable) (now : Rat) :
    Simulates (Settled options cellLength) (Quiet options cellLength) (stop options now)
      (Timeline.stop options now) := by
  refine Simulates.read fun s t h => ?_
  have hcond : (s.status = .stopped ∧ s.cycle = none) ↔ (t.status = .stopped ∧ t.cycle = none) := by
    rw [h.status]
    refine and_congr_right fun _ => ?_
    rcases h with h | ⟨task, cycle, h, -⟩
    · rw [← h.1.cycle, Option.map_eq_none_iff]
    · rw [h.current, h.span]
      exact ⟨nofun, nofun⟩
  simp only [hcond]
  refine Simulates.ite (fun hoff => ?_) fun _ => ?_
  · refine Simulates.pure false ?_
    rintro s' t' ⟨hsettled, -, rfl⟩
    refine hsettled.quiet ?_
    rw [hoff.1]
    decide
  · refine Simulates.change (fun s t hpre => hpre.1.withRunning false) ?_
    refine Simulates.bind unarmed_quiet (disarm_simulates fun _ _ hpre => hpre) fun _ => ?_
    refine Simulates.bind unarmed_quiet (setStatus_simulates .stopped) fun _ => ?_
    refine settleAll_silent (onCycle unarmed_cycle (Simulates.pure true unarmed_quiet) fun cycle => ?_)
    refine Simulates.silent (fun s t hpre => hpre.idle hpre.1.jobs) ?_
    exact leaveCycle_simulates hlanes cycle.endMs now

theorem quiet_cycle (s : CoverScheduler) (t : Timeline) (h : Quiet options cellLength s t) :
    s.cycle.map (·.toCycleSpan) = t.cycle := h.1.cycle

/-- Arming and returning, from a scheduler with or without a timer. -/
theorem arm_return {kind : TimerKind} {due : Due} (deadlineMs : Int) (a : α)
    (hmatch : ∀ cycle, TimerMatches options.schedule cycle (some ⟨deadlineMs, kind⟩)
      (some (deadlineMs, due))) :
    Simulates (Quiet options cellLength) (Quiet options cellLength)
      (arm deadlineMs kind >>= fun _ => pure a)
      (Timeline.arm deadlineMs due >>= fun _ => pure a) :=
  Simulates.bind (fun _ _ h => h) ((arm_simulates deadlineMs hmatch).mono (fun _ _ h => .inl h)
    fun _ _ h => h) fun _ => Simulates.pure a fun _ _ h => h

theorem start_simulates (now : Rat) :
    Simulates (Quiet options cellLength) (Quiet options cellLength) (start options now)
      (Timeline.start options now) := by
  refine Simulates.read fun s t h => ?_
  rw [h.1.status]
  refine Simulates.ite (fun _ => Simulates.pure false fun _ _ hpre => hpre.1) fun _ => ?_
  refine @Simulates.change _ _ _ _ _ (Quiet options cellLength) _ _ _ _ _ (fun s t hpre => ?_) ?_
  · obtain ⟨⟨hshown, htimer⟩, -, -⟩ := hpre
    exact ⟨⟨hshown.status, rfl, hshown.cycle, hshown.seen, hshown.lanes, hshown.stale, hshown.jobs,
      hshown.stages⟩, htimer⟩
  refine @Simulates.change _ _ _ _ _ (Quiet options cellLength) _ _ _ _ _ (fun s t hpre => ?_) ?_
  · obtain ⟨hshown, htimer⟩ := hpre
    exact ⟨⟨rfl, hshown.running, hshown.cycle, hshown.seen, hshown.lanes, hshown.stale, hshown.jobs,
      hshown.stages⟩, htimer⟩
  refine onCycle quiet_cycle ?_ fun cycle => ?_
  · exact Simulates.attempt (fun _ _ hpre => hpre) fun boundary =>
      arm_return boundary true fun _ => .openBoundary
  · exact arm_return cycle.endMs true fun _ => .cycleBoundary

theorem resume_simulates (hlanes : options.laneFactory.Reliable) (now : Rat) :
    Simulates (Quiet options cellLength) (Quiet options cellLength) (resume options now)
      (Timeline.resume options now) := by
  refine Simulates.read fun s t h => ?_
  rw [h.1.status]
  refine Simulates.ite (fun _ => Simulates.pure false fun _ _ hpre => hpre.1) fun _ => ?_
  refine Simulates.change (fun s t hpre => Settled.withRunning (.inl hpre.1) true) ?_
  refine Simulates.bind unarmed_quiet (disarm_simulates fun _ _ hpre => hpre) fun _ => ?_
  refine Simulates.bind unarmed_quiet (setStatus_simulates .starting) fun _ => ?_
  refine onCycle unarmed_cycle (armOpening_return now false true) fun cycle => ?_
  refine Simulates.ite (fun _ => armBoundary_return cycle.endMs true) fun _ => ?_
  exact Simulates.bind unarmed_quiet (closeCurrentCycle_simulates hlanes _ now) fun _ =>
    armOpening_return now false true

theorem armNextCycle_simulates (now : Rat) :
    Simulates (Unarmed options cellLength) (Quiet options cellLength) (armNextCycle options now)
      (Timeline.armNextCycle options now) := by
  refine Simulates.read fun s t h => ?_
  rw [h.1.running]
  refine Simulates.ite (fun _ => ?_) fun _ => Simulates.pure () fun _ _ hpre => hpre.1.quiet
  refine Simulates.attempt (fun _ _ hpre => hpre.1.quiet) fun boundary => ?_
  exact (armOpenBoundary_simulates boundary).mono (fun _ _ hpre => hpre.1) fun _ _ hpost => hpost

theorem degrade_simulates (hlanes : options.laneFactory.Reliable) (now : Rat) :
    Simulates (Quiet options cellLength) (Quiet options cellLength) (degrade options now)
      (Timeline.degrade options now) := by
  refine Simulates.read fun s t h => ?_
  rw [h.1.status]
  refine Simulates.ite (fun _ => Simulates.pure () fun _ _ hpre => hpre.1) fun _ => ?_
  refine Simulates.bind unarmed_quiet (disarm_simulates fun _ _ hpre => .inl hpre.1) fun _ => ?_
  refine Simulates.bind unarmed_quiet (setStatus_simulates .degraded) fun _ => ?_
  refine onCycle unarmed_cycle (armNextCycle_simulates now) fun cycle => interruptCycle_silent ?_
  refine Simulates.ite (fun _ => armCycleBoundary_simulates cycle.endMs) fun _ => ?_
  exact Simulates.bind unarmed_quiet (closeCurrentCycle_simulates hlanes _ now) fun _ =>
    armNextCycle_simulates now

/-- The lanes of a new cycle. -/
theorem lanesOf_laneContexts {schedule : CoverSchedule} (jobs : Jobs) (span : CycleSpan)
    {selected : List (Option Nat)} (hcount : selected.length = schedule.coverLanes) (serial : Nat) :
    LanesOf schedule ⟨span, serial, laneContexts jobs span selected, 0⟩ := by
  unfold LanesOf laneContexts
  refine List.ext_getElem (by simp [hcount]) fun i hi hi' => ?_
  simp

theorem openings_laneContexts {schedule : CoverSchedule} (jobs : Jobs) (span : CycleSpan)
    {selected : List (Option Nat)} (hcount : selected.length = schedule.coverLanes) (now : Rat) :
    ((laneContexts jobs span selected).map fun lane => Call.laneOpen lane.openContext now).map
      Call.observe = openings schedule span now := by
  unfold openings laneContexts
  refine List.ext_getElem (by simp [hcount]) fun i hi hi' => ?_
  simp [Call.observe]

theorem openCycle_simulates (hlanes : options.laneFactory.Reliable) (boundaryMs : Int)
    (generation : Nat) (now : Rat) :
    Simulates (UnarmedAt options cellLength generation)
      (Quiet options cellLength) (openCycle options boundaryMs generation now)
      (Timeline.openCycle options boundaryMs now) := by
  refine Simulates.read fun s t h => ?_
  have hcond : (generation ≠ s.generation ∨ s.running = false ∨ s.status = .stopped ∨
      s.status = .suspended) ↔
      (t.running = false ∨ t.status = .stopped ∨ t.status = .suspended) := by
    rw [h.1.1.running, h.1.1.status]
    exact ⟨fun hor => hor.resolve_left (not_not_intro h.2), .inr⟩
  simp only [hcond]
  refine Simulates.ite (fun _ => Simulates.pure () fun _ _ hpre => hpre.1.1.quiet) fun _ => ?_
  refine Simulates.attempt (fun _ _ hpre => hpre.1.1.quiet) fun cycleIndex => ?_
  refine Simulates.ensure (fun _ _ hpre => hpre.1.1.quiet) fun _ => ?_
  obtain ⟨hruntimes, hcount⟩ := Jobs.dequeueMany_runtimes options.schedule.coverLanes s.jobs
  have hjobs : (s.jobs.dequeueMany options.schedule.coverLanes).2.Uniform cellLength := by
    intro r hr
    rw [hruntimes] at hr
    exact h.1.1.jobs r hr
  generalize s.jobs.dequeueMany options.schedule.coverLanes = picked at hcount hjobs
  obtain ⟨selected, jobs⟩ := picked
  have hopened : ∀ lanes : List LaneRuntime, (lanes.filter fun lane =>
      options.laneFactory.opens cycleIndex lane.laneIndex) = lanes := fun lanes =>
    List.filter_eq_self.mpr fun lane _ => (hlanes cycleIndex lane.laneIndex).1
  simp only [hopened, ne_eq, not_true_eq_false, if_false]
  rintro s' t' ⟨⟨hpre, -⟩, rfl, rfl⟩
  refine ⟨rfl, ⟨rfl, hpre.1.running, rfl, ?_, ?_, ?_, hjobs.admitSelected selected, hpre.1.stages⟩, .slot⟩
  · show (s'.calls ++ _).map Call.observe = t'.seen ++ _
    rw [List.map_append, openings_laneContexts _ _ hcount, ← hpre.1.seen]
    rfl
  · rintro _ ⟨⟩
    exact lanesOf_laneContexts _ _ hcount _
  · exact fun task htask => Nat.lt_succ_of_lt (hpre.1.stale task htask)

theorem finalizeCycleJobs_silent {m : SchedulerM α} {n : TimelineM α}
    {R : CoverScheduler → Timeline → Prop} {generation : Nat}
    (hm : Simulates (UnarmedAt options cellLength generation) R m n) :
    Simulates (UnarmedAt options cellLength generation) R
      (finalizeCycleJobs >>= fun _ => m) n := by
  refine Simulates.silent (fun s t h => ?_) hm
  cases hcycle : s.cycle with
  | none => exact h
  | some cycle =>
    have hidle := fun (jobs : Jobs) (hjobs : jobs.Uniform cellLength) => h.1.idle hjobs
    rw [hcycle] at hidle
    refine ⟨hidle _ ?_, h.2⟩
    refine Jobs.Uniform.foldl (fun jobs runtime hjobs => ?_) _ h.1.1.jobs
    cases runtime with
    | none => exact hjobs
    | some runtime => exact hjobs.finalize runtime

theorem handleCycleBoundary_simulates (hlanes : options.laneFactory.Reliable) (boundaryMs : Int)
    (now : Rat) :
    Simulates (Unarmed options cellLength) (Quiet options cellLength)
      (handleCycleBoundary options boundaryMs now)
      (Timeline.handleCycleBoundary options boundaryMs now) := by
  refine Simulates.read fun s t h => ?_
  have hcycle := h.1.cycle
  cases hs : s.cycle with
  | none =>
    rw [hs] at hcycle
    rw [← hcycle]
    exact Simulates.pure () fun _ _ hpre => hpre.1.quiet
  | some cycle =>
    rw [hs] at hcycle
    rw [← hcycle, h.1.running, h.1.status]
    refine Simulates.ite (fun _ => Simulates.pure () fun _ _ hpre => hpre.1.quiet) fun _ => ?_
    -- from here on only the generation of the state that was read matters
    refine Simulates.mono (P := UnarmedAt options cellLength s.generation) ?_
      (fun s' t' hpre => ⟨hpre.1, by rw [hpre.2.1]⟩) fun _ _ hpost => hpost
    refine finalizeCycleJobs_silent ?_
    refine Simulates.bind_of (fun _ _ hpre => hpre.1.quiet)
      (closeCurrentCycle_keeps hlanes s.generation .boundary now)
      (Timeline.closeCurrentCycle_true .boundary now) fun clean hclean => ?_
    rw [hclean, if_neg (by decide)]
    refine Simulates.ite (fun _ => Simulates.pure () fun _ _ hpre => hpre.1.quiet) fun _ => ?_
    exact Simulates.recover (openCycle_simulates hlanes boundaryMs s.generation now)
      (handlerFailed_simulates hlanes now)

/-- The slot of a timer, as its timeline has it. -/
inductive KindMatches : TimerKind → Due → Prop
  | openBoundary : KindMatches .openBoundary .openBoundary
  | cycleBoundary : KindMatches .cycleBoundary .cycleBoundary
  | slot (slot : CoverSlot) (ordinal : Nat) : KindMatches (.slot slot) (.slot ordinal)

theorem handleLateTimer_simulates (hlanes : options.laneFactory.Reliable) {kind : TimerKind}
    {due : Due} (hkind : KindMatches kind due) (now : Rat) :
    Simulates (Unarmed options cellLength) (Quiet options cellLength)
      (handleLateTimer options kind now) (Timeline.handleLateTimer options due now) := by
  have hlate : Simulates (Unarmed options cellLength) (Quiet options cellLength)
      (interruptCycle >>= fun _ => closeCurrentCycle options .lateCleanup now >>= fun _ =>
        modify fun s => { s with status := if s.status = .stopped then .stopped else .suspended })
      (Timeline.closeCurrentCycle options .lateCleanup now >>= fun _ =>
        modify fun t => { t with status := if t.status = .stopped then .stopped else .suspended }) := by
    refine interruptCycle_silent (Simulates.bind unarmed_quiet
      (closeCurrentCycle_simulates hlanes .lateCleanup now) fun _ => Simulates.change_last ?_)
    intro s t h
    have hstatus := h.withStatus (if t.status = .stopped then .stopped else .suspended)
    rw [← h.1.status] at hstatus ⊢
    exact hstatus.quiet
  cases hkind with
  | slot => exact (degrade_simulates hlanes now).mono unarmed_quiet fun _ _ hpost => hpost
  | openBoundary => exact hlate
  | cycleBoundary => exact hlate

end Methods

end Cover

end P2Party
