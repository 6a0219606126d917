import P2Party.Cover.Timeline

/-!
# The lanes do not show the jobs

Runs of a scheduler as sequences of events, and what the lanes show of them. A slot is
filled when its cell is there, not when its timer fires, so that the scheduler is
related to its timeline in two ways: without a running slot, and while one runs.

- `Event`, `step`, `runAll`: whole runs;
- `timerFired_simulates`, `cellProduced_keeps`, `cellSent_keeps`: the steps of a slot;
- `step_simulates`, `runs_simulate`: a run shows what its timeline shows.
-/

namespace P2Party

open Base

namespace Cover

/-! ## Runs -/

/-- What happens to the schedule: a call of its methods, or the timer, with the clock
reading it takes. -/
inductive Control
  | start (now : Rat)
  | suspend (now : Rat)
  | resume (now : Rat)
  | stop (now : Rat)
  | timer (firedAt : Rat)
deriving DecidableEq

/-- What happens to a scheduler: a control event, a call about a job, a producer's
answer to a waiting slot, a lane's answer to a slot whose cell it has. -/
inductive Event
  | control (control : Control)
  | enqueue (job : CoverJob)
  | cancel (jobId : JsString)
  | complete (jobId : JsString)
  | produced (task : SlotTask) (answer : Except Unit (Option Bytes)) (now : Rat)
  | sent (task : SlotTask) (answer : Except Unit Bool) (now : Rat)

/-- The control event of an event. -/
def Event.control? : Event → Option Control
  | .control c => some c
  | _ => none

variable (options : CoverSchedulerOptions) (cellLength : Nat)

/-- A control event at a scheduler. -/
def Control.step (control : Control) (s : CoverScheduler) : CoverScheduler :=
  match control with
  | .start now => finalState ((Cover.start options now).run s)
  | .suspend now => finalState ((Cover.suspend options now).run s)
  | .resume now => finalState ((Cover.resume options now).run s)
  | .stop now => finalState ((Cover.stop options now).run s)
  | .timer firedAt => finalState ((timerFired options firedAt).run s)

/-- An event at a scheduler; an answer to a slot that does not wait for it is none. -/
def step (event : Event) (s : CoverScheduler) : CoverScheduler :=
  match event with
  | .control control => control.step options s
  | .enqueue job => finalState ((Cover.enqueue options job).run s)
  | .cancel jobId => finalState ((Cover.cancel jobId).run s)
  | .complete jobId => finalState ((Cover.complete jobId).run s)
  | .produced task answer now =>
    if task ∈ s.tasks ∧ task.stage.isSending = false then
      finalState ((cellProduced options task answer now).run s)
    else s
  | .sent task answer now =>
    match task.stage with
    | .sending request =>
      if task ∈ s.tasks then finalState ((cellSent options task request answer now).run s) else s
    | _ => s

/-- A run. -/
def runAll (events : List Event) (s : CoverScheduler) : CoverScheduler :=
  events.foldl (fun s event => step options event s) s

/-- A control event at the timeline. -/
def Timeline.step (control : Control) (t : Timeline) : Timeline :=
  match control with
  | .start now => finalState ((Timeline.start options now).run t)
  | .suspend now => finalState ((Timeline.suspend options now).run t)
  | .resume now => finalState ((Timeline.resume options now).run t)
  | .stop now => finalState ((Timeline.stop options now).run t)
  | .timer firedAt => finalState ((Timeline.timerFired options cellLength firedAt).run t)

/-- A run of the timeline. -/
def Timeline.runAll (controls : List Control) (t : Timeline) : Timeline :=
  controls.foldl (fun t control => Timeline.step options cellLength control t) t

/-- The events of a well-behaved environment: the timer's callback runs when the timer
is armed, the producers answer with cells of the uniform length (or, for `nextCell`,
with `null`) within the drift tolerance, and the lanes accept every cell. -/
def Event.Allowed (event : Event) (s : CoverScheduler) : Prop :=
  match event with
  | .control (.timer _) => s.timer.isSome = true
  | .produced task answer now =>
    ((∃ cell, answer = .ok (some cell) ∧ cell.length = cellLength) ∨
        (answer = .ok none ∧ ∃ runtime job, task.stage = .nextCell runtime job)) ∧
      (task.generation = s.generation →
        now ≤ task.slot.deadlineMs + options.maxTimerDriftMs)
  | .sent _ answer _ => answer = .ok true
  | _ => True

/-- No slot of the current generation waits for its cell. -/
def CoverScheduler.Rested (s : CoverScheduler) : Prop :=
  ∀ task ∈ s.tasks, task.generation = s.generation → task.stage.isSending = true

instance (s : CoverScheduler) : Decidable s.Rested :=
  inferInstanceAs (Decidable (∀ task ∈ s.tasks,
    task.generation = s.generation → task.stage.isSending = true))

/-- `suspend` and `stop` come when no slot waits for its cell. -/
def Event.Prompt (event : Event) (s : CoverScheduler) : Prop :=
  match event with
  | .control (.suspend _) | .control (.stop _) => s.Rested
  | _ => True

/-- A run every event of which satisfies a condition in the state it meets. -/
def Throughout (p : Event → CoverScheduler → Prop) : List Event → CoverScheduler → Prop
  | [], _ => True
  | event :: events, s => p event s ∧ Throughout p events (step options event s)

variable {options cellLength} {s : CoverScheduler} {t : Timeline}

/-! ## A slot starts -/

/-- The scheduler is related to its timeline, with or without a running slot. -/
def Related (options : CoverSchedulerOptions) (cellLength : Nat) (s : CoverScheduler)
    (t : Timeline) : Prop :=
  Quiet options cellLength s t ∨ ∃ task cycle, Live options cellLength s t task cycle

theorem requestForSlot_uniform {jobs : Jobs} (h : jobs.Uniform cellLength) (laneJob : Option Nat)
    (slot : CoverSlot) : (requestForSlot jobs laneJob slot).Uniform cellLength slot ∧
      (requestForSlot jobs laneJob slot).isSending = false := by
  have hwait : ∀ stage : Stage, stage.isSending = false → (∀ request, stage ≠ .ready request) →
      stage.Uniform cellLength slot ∧ stage.isSending = false := by
    intro stage hsending hready
    refine ⟨?_, hsending⟩
    cases stage with
    | ready request => exact absurd rfl (hready request)
    | _ => trivial
  unfold requestForSlot
  cases laneJob with
  | none => exact hwait _ rfl fun _ h => Stage.noConfusion h
  | some runtime =>
    simp only
    split
    case h_1 => exact hwait _ rfl fun _ h => Stage.noConfusion h
    case h_2 r hget =>
      have hr : r.Uniform cellLength := h r (List.mem_of_getElem? hget)
      split
      · exact hwait _ rfl fun _ h => Stage.noConfusion h
      split
      · split
        case h_1 cell hcell => exact ⟨⟨rfl, hr.2 cell hcell⟩, rfl⟩
        case h_2 => exact hwait _ rfl fun _ h => Stage.noConfusion h
      split
      · split
        case h_1 cell hcell => exact ⟨⟨rfl, hr.1 cell hcell⟩, rfl⟩
        case h_2 => exact hwait _ rfl fun _ h => Stage.noConfusion h
      · exact hwait _ rfl fun _ h => Stage.noConfusion h

/-- Every slot has a lane. -/
theorem LanesOf.find {schedule : CoverSchedule} {cycle : CycleRuntime} (h : LanesOf schedule cycle)
    {laneIndex : Nat} (hlane : laneIndex < schedule.coverLanes) :
    ∃ lane, (cycle.lanes.find? fun lane => decide (lane.laneIndex = laneIndex)) = some lane := by
  have hmem : (laneIndex, cycle.toCycleSpan, laneIndex) ∈ cycle.lanes.map fun lane =>
      (lane.laneIndex, lane.openContext.cycle, lane.openContext.laneIndex) := by
    rw [h]
    exact List.mem_map.mpr ⟨laneIndex, List.mem_range.mpr hlane, rfl⟩
  obtain ⟨lane, hmem, heq⟩ := List.mem_map.mp hmem
  refine Option.isSome_iff_exists.mp (List.find?_isSome.mpr ⟨lane, hmem, ?_⟩)
  exact decide_eq_true (congrArg Prod.fst heq)

/-- A task of a new generation is the last one of the list. -/
theorem erase_concat {tasks : List SlotTask} {task : SlotTask} {generation : Nat}
    (hstale : ∀ other ∈ tasks, other.generation < generation)
    (hgeneration : task.generation = generation) : (tasks ++ [task]).erase task = tasks := by
  have hnew : task ∉ tasks := fun hmem =>
    absurd (hstale task hmem) (by rw [hgeneration]; exact Nat.lt_irrefl _)
  rw [List.erase_append_right _ hnew, List.erase_cons_head, List.append_nil]

theorem sendSlot_simulates (hlanes : 0 < options.schedule.coverLanes) {cycle : CycleRuntime}
    (generation : Nat) (now : Rat) :
    Simulates (fun s t => UnarmedAt options cellLength generation s t ∧ s.cycle = some cycle)
      (Related options cellLength)
      (sendSlot options (slotAt options.schedule cycle.toCycleSpan cycle.nextSlotOrdinal) generation
        now)
      (Timeline.sendSlot options cellLength cycle.nextSlotOrdinal) := by
  rintro s t ⟨⟨h, hgeneration⟩, hcurrent⟩
  have hspan : t.cycle = some cycle.toCycleSpan := by rw [← h.1.cycle, hcurrent]; rfl
  unfold sendSlot Timeline.sendSlot
  rw [run_get_bind, run_get_bind]
  simp only [hcurrent, hspan, ← hgeneration, ne_eq, not_true_eq_false, false_or, h.1.status]
  by_cases hactive : t.status = .active
  · simp only [hactive, not_true_eq_false, if_false]
    have hof := h.1.lanes cycle hcurrent
    have hlane : (slotAt options.schedule cycle.toCycleSpan cycle.nextSlotOrdinal).laneIndex <
        options.schedule.coverLanes := Nat.mod_lt _ hlanes
    obtain ⟨lane, hfind⟩ := hof.find hlane
    rw [hfind]
    obtain ⟨huniform, hwaits⟩ := requestForSlot_uniform h.1.jobs lane.job
      (slotAt options.schedule cycle.toCycleSpan cycle.nextSlotOrdinal)
    refine ⟨rfl, .inr ⟨_, cycle, ⟨h.1.status.trans hactive, h.1.status, h.1.running, hcurrent, hspan,
      h.2.1, rfl, ?_, List.mem_append_right _ List.mem_cons_self, hgeneration, rfl, rfl, hof, ?_,
      h.1.jobs, ?_⟩⟩⟩
    · show t.seen ++ _ = s.seen ++ _
      rw [hwaits, h.1.seen]
      rfl
    · intro other hother
      refine h.1.stale other ?_
      rw [erase_concat h.1.stale hgeneration] at hother
      exact hother
    · intro task htask
      rcases List.mem_append.mp htask with hold | hnew
      · exact h.1.stages task hold
      · rw [List.mem_singleton.mp hnew]
        exact huniform
  · simp only [hactive, not_false_eq_true, if_true]
    exact ⟨rfl, .inl h.quiet⟩

/-- The timer of a scheduler without a running slot. -/
theorem timerFired_simulates (hfactory : options.laneFactory.Reliable)
    (hlanes : 0 < options.schedule.coverLanes) (firedAt : Rat) :
    Simulates (Quiet options cellLength) (Related options cellLength) (timerFired options firedAt)
      (Timeline.timerFired options cellLength firedAt) := by
  have hquiet : ∀ s t, Quiet options cellLength s t → Related options cellLength s t :=
    fun _ _ h => .inl h
  rintro s t ⟨h, htimer⟩
  have hunarmed : Unarmed options cellLength { s with timer := none } { t with timer := none } :=
    ⟨⟨h.status, h.running, h.cycle, h.seen, h.lanes, h.stale, h.jobs, h.stages⟩, rfl, rfl⟩
  unfold timerFired Timeline.timerFired
  rw [run_get_bind, run_get_bind]
  generalize hst : s.timer = st at htimer
  generalize htt : t.timer = tt at htimer
  generalize hsc : s.cycle = sc at htimer
  cases htimer with
  | unarmed => exact ⟨rfl, .inl ⟨h, by rw [hst, htt]; exact .unarmed⟩⟩
  | @openBoundary _ deadlineMs =>
    simp only
    by_cases hearly : firedAt < deadlineMs
    · simp only [hearly, if_true]
      exact ⟨rfl, .inl ⟨h, by rw [hst, htt]; exact .openBoundary⟩⟩
    · simp only [hearly, if_false]
      show Alike _ (EStateM.run (ite _ _ _) { s with timer := none })
        (EStateM.run (ite _ _ _) { t with timer := none })
      split
      · exact (handleLateTimer_simulates hfactory .openBoundary firedAt _ _ hunarmed).mono hquiet
      · exact ((Simulates.recover (openCycle_simulates hfactory deadlineMs s.generation firedAt)
          (handlerFailed_simulates hfactory firedAt)) _ _ ⟨hunarmed, rfl⟩).mono hquiet
  | @cycleBoundary _ deadlineMs =>
    simp only
    by_cases hearly : firedAt < deadlineMs
    · simp only [hearly, if_true]
      exact ⟨rfl, .inl ⟨h, by rw [hst, htt]; exact .cycleBoundary⟩⟩
    · simp only [hearly, if_false]
      show Alike _ (EStateM.run (ite _ _ _) { s with timer := none })
        (EStateM.run (ite _ _ _) { t with timer := none })
      split
      · exact (handleLateTimer_simulates hfactory .cycleBoundary firedAt _ _ hunarmed).mono hquiet
      · exact (handleCycleBoundary_simulates hfactory deadlineMs firedAt _ _ hunarmed).mono hquiet
  | @slot cycle =>
    simp only
    by_cases hearly : firedAt <
        (slotAt options.schedule cycle.toCycleSpan cycle.nextSlotOrdinal).deadlineMs
    · simp only [hearly, if_true]
      exact ⟨rfl, .inl ⟨h, by rw [hst, htt, hsc]; exact .slot⟩⟩
    · simp only [hearly, if_false]
      show Alike _ (EStateM.run (ite _ _ _) { s with timer := none })
        (EStateM.run (ite _ _ _) { t with timer := none })
      split
      · exact (handleLateTimer_simulates hfactory (.slot _ _) firedAt _ _ hunarmed).mono hquiet
      · exact sendSlot_simulates hlanes s.generation firedAt _ _ ⟨⟨hunarmed, rfl⟩, hsc⟩

/-! ## Changes that do not show -/

/-- The jobs change. -/
theorem Related.withJobs (h : Related options cellLength s t) {jobs : Jobs}
    (hjobs : jobs.Uniform cellLength) : Related options cellLength { s with jobs } t := by
  rcases h with ⟨h, htimer⟩ | ⟨task, cycle, h⟩
  · exact .inl ⟨⟨h.status, h.running, h.cycle, h.seen, h.lanes, h.stale, hjobs, h.stages⟩, htimer⟩
  · exact .inr ⟨task, cycle, ⟨h.active, h.status, h.running, h.current, h.span, h.unarmed, h.timer,
      h.seen, h.mem, h.generation, h.serial, h.slot, h.lanes, h.stale, hjobs, h.stages⟩⟩

theorem Related.jobs (h : Related options cellLength s t) : s.jobs.Uniform cellLength := by
  rcases h with h | ⟨task, cycle, h⟩
  · exact h.1.jobs
  · exact h.jobs

theorem Related.stages (h : Related options cellLength s t) :
    ∀ task ∈ s.tasks, task.stage.Uniform cellLength task.slot := by
  rcases h with h | ⟨task, cycle, h⟩
  · exact h.1.stages
  · exact h.stages

/-- A task of the current generation is the running one. -/
theorem Related.live (h : Related options cellLength s t) {task : SlotTask} (hmem : task ∈ s.tasks)
    (hgeneration : task.generation = s.generation) :
    ∃ cycle, Live options cellLength s t task cycle := by
  rcases h with h | ⟨other, cycle, h⟩
  · exact absurd (h.1.stale task hmem) (by rw [hgeneration]; exact Nat.lt_irrefl _)
  · by_cases heq : task = other
    · exact ⟨cycle, heq ▸ h⟩
    · have hstale := h.stale task ((List.mem_erase_of_ne heq).mpr hmem)
      exact absurd hstale (by rw [hgeneration]; exact Nat.lt_irrefl _)

/-- A task of an earlier generation goes on or ends. -/
theorem Related.staleTask (h : Related options cellLength s t) {task : SlotTask}
    (hmem : task ∈ s.tasks) (hgeneration : task.generation ≠ s.generation)
    (rest : List SlotTask) (hrest : ∀ other ∈ rest, other.generation = task.generation ∧
      other.stage.Uniform cellLength other.slot) :
    Related options cellLength { s with tasks := s.tasks.erase task ++ rest } t := by
  have hstages : ∀ other ∈ s.tasks.erase task ++ rest,
      other.stage.Uniform cellLength other.slot := by
    intro other hother
    rcases List.mem_append.mp hother with hold | hnew
    · exact h.stages other (List.mem_of_mem_erase hold)
    · exact (hrest other hnew).2
  rcases h with ⟨h, htimer⟩ | ⟨live, cycle, h⟩
  · refine .inl ⟨⟨h.status, h.running, h.cycle, h.seen, h.lanes, ?_, h.jobs, hstages⟩, htimer⟩
    intro other hother
    rcases List.mem_append.mp hother with hold | hnew
    · exact h.stale other (List.mem_of_mem_erase hold)
    · rw [(hrest other hnew).1]
      exact h.stale task hmem
  · have hne : task ≠ live := fun heq => hgeneration (heq ▸ h.generation)
    have hlive : live ∈ s.tasks.erase task := (List.mem_erase_of_ne hne.symm).mpr h.mem
    have hold : task.generation < s.generation :=
      h.stale task ((List.mem_erase_of_ne hne).mpr hmem)
    refine .inr ⟨live, cycle, ⟨h.active, h.status, h.running, h.current, h.span, h.unarmed, h.timer,
      h.seen, List.mem_append_left _ hlive, h.generation, h.serial, h.slot, h.lanes, ?_, h.jobs,
      hstages⟩⟩
    intro other hother
    rw [List.erase_append_left _ hlive, List.erase_comm] at hother
    rcases List.mem_append.mp hother with hother | hnew
    · exact h.stale other (List.mem_of_mem_erase hother)
    · rw [(hrest other hnew).1]
      exact hold

/-- The running slot goes on to another stage, perhaps with a call. -/
theorem Live.advance {task : SlotTask} {cycle : CycleRuntime}
    (h : Live options cellLength s t task cycle) (stage : Stage) {calls : List Call}
    (huniform : stage.Uniform cellLength task.slot)
    (hseen : t.seen = calls.map Call.observe ++ if stage.isSending then [] else
      [filling options.schedule cellLength cycle.toCycleSpan cycle.nextSlotOrdinal]) :
    Related options cellLength
      { s with tasks := s.tasks.erase task ++ [{ task with stage }], calls } t := by
  refine .inr ⟨{ task with stage }, cycle, ⟨h.active, h.status, h.running, h.current, h.span,
    h.unarmed, h.timer, hseen, List.mem_append_right _ List.mem_cons_self, h.generation, h.serial,
    h.slot, h.lanes, ?_, h.jobs, ?_⟩⟩
  · intro other hother
    have hlast := @erase_concat (s.tasks.erase task) { task with stage } s.generation h.stale
      h.generation
    exact h.stale other (hlast ▸ hother)
  · intro other hother
    rcases List.mem_append.mp hother with hold | hnew
    · exact h.stages other (List.mem_of_mem_erase hold)
    · rw [List.mem_singleton.mp hnew]
      exact huniform

theorem cachedJobs_uniform (hjobs : s.jobs.Uniform cellLength) (task : SlotTask)
    {request : CoverSendRequest} (hcell : request.cell.length = cellLength) :
    (s.cachedJobs task request).Uniform cellLength := by
  unfold CoverScheduler.cachedJobs
  split
  · exact hjobs
  · refine hjobs.update _ fun r hr => ?_
    split
    · exact hr
    · split
      · refine ⟨hr.1, ?_⟩
        rintro _ ⟨⟩
        exact hcell
      · refine ⟨?_, hr.2⟩
        rintro _ ⟨⟩
        exact hcell
      · exact hr

theorem acceptedJobs_uniform (hjobs : s.jobs.Uniform cellLength) (task : SlotTask)
    (request : CoverSendRequest) : (s.acceptedJobs task request).Uniform cellLength := by
  unfold CoverScheduler.acceptedJobs
  split
  · exact hjobs
  split
  · exact hjobs
  split
  · exact hjobs
  split
  · refine (hjobs.update _ fun r hr => ?_).settle _
    exact ⟨hr.1, nofun⟩
  · have hcounted : ∀ runtime, (s.jobs.update runtime fun r =>
        { r with pendingCell := none, sentCells := r.sentCells + 1 }).Uniform cellLength :=
      fun runtime => hjobs.update runtime fun r hr => ⟨nofun, hr.2⟩
    simp only
    split
    · refine ((hcounted _).update _ fun r hr => ?_).settle _
      exact ⟨hr.1, hr.2⟩
    · exact hcounted _
  · exact hjobs

/-! ## The steps of a slot -/

/-- What a producer's answer makes of a waiting slot in a well-behaved environment. -/
theorem produced_uniform (jobs : Jobs) {task : SlotTask} {answer : Except Unit (Option Bytes)}
    (hwaits : task.stage.isSending = false) (huniform : task.stage.Uniform cellLength task.slot)
    (hanswer : (∃ cell, answer = .ok (some cell) ∧ cell.length = cellLength) ∨
      (answer = .ok none ∧ ∃ runtime job, task.stage = .nextCell runtime job)) :
    (∃ jobId, produced jobs task.slot task.stage answer = .makeDummy jobId) ∨
      ∃ request, produced jobs task.slot task.stage answer = .request request ∧
        request.slot = task.slot ∧ request.cell.length = cellLength := by
  cases hstage : task.stage with
  | sending request =>
    rw [hstage] at hwaits
    cases hwaits
  | ready request =>
    rw [hstage] at huniform
    exact .inr ⟨request, by unfold produced; rfl, huniform⟩
  | cancelCell runtime job =>
    rcases hanswer with ⟨cell, rfl, hcell⟩ | ⟨-, runtime', job', hnext⟩
    · exact .inr ⟨_, rfl, rfl, hcell⟩
    · rw [hstage] at hnext
      cases hnext
  | nextCell runtime job =>
    rcases hanswer with ⟨cell, rfl, hcell⟩ | ⟨rfl, -⟩
    · exact .inr ⟨_, rfl, rfl, hcell⟩
    · exact .inl ⟨_, rfl⟩
  | makeDummy jobId =>
    rcases hanswer with ⟨cell, rfl, hcell⟩ | ⟨-, runtime', job', hnext⟩
    · exact .inr ⟨_, rfl, rfl, hcell⟩
    · rw [hstage] at hnext
      cases hnext

/-- A producer's answer does not show, except that the cell of the running slot is sent. -/
theorem cellProduced_keeps (h : Related options cellLength s t) {task : SlotTask}
    (hmem : task ∈ s.tasks) (hwaits : task.stage.isSending = false)
    {answer : Except Unit (Option Bytes)} {now : Rat}
    (hevent : Event.Allowed options cellLength (.produced task answer now) s) :
    Related options cellLength (finalState ((cellProduced options task answer now).run s)) t := by
  obtain ⟨hanswer, hintime⟩ := hevent
  unfold cellProduced endTask
  rw [run_modify_bind, run_get_bind]
  rcases produced_uniform s.jobs hwaits (h.stages task hmem) hanswer with
    ⟨jobId, hproduced⟩ | ⟨request, hproduced, hslot, hcell⟩
  · simp only [hproduced]
    by_cases hlive : task.generation = s.generation
    · obtain ⟨cycle, hl⟩ := h.live hmem hlive
      have hseen := hl.seen
      rw [hwaits] at hseen
      exact hl.advance (.makeDummy jobId) trivial hseen
    · refine h.staleTask hmem hlive [_] ?_
      intro other hother
      rw [List.mem_singleton.mp hother]
      exact ⟨rfl, trivial⟩
  · simp only [hproduced]
    by_cases hlive : task.generation = s.generation
    · obtain ⟨cycle, hl⟩ := h.live hmem hlive
      have hseen := hl.seen
      rw [hwaits] at hseen
      have hnow : ¬ now > task.slot.deadlineMs + options.maxTimerDriftMs :=
        Rat.not_lt.mpr (hintime hlive)
      rw [if_neg (not_not_intro hlive), if_neg hnow]
      refine hl.advance (.sending request) trivial ?_
      rw [List.map_append, hseen]
      show s.seen ++ [_] = s.seen ++ [_] ++ []
      rw [List.append_nil, filling, ← hl.slot, ← hslot, ← hcell]
      rfl
    · have hended := h.staleTask hmem hlive [] (by simp)
      rw [List.append_nil] at hended
      have hjobs := @cachedJobs_uniform cellLength { s with tasks := s.tasks.erase task } h.jobs task
        request hcell
      rw [if_pos hlive]
      exact hended.withJobs hjobs

/-- A lane's answer does not show: the running slot ends where its timeline already is. -/
theorem cellSent_keeps (h : Related options cellLength s t) {task : SlotTask}
    {request : CoverSendRequest} (hmem : task ∈ s.tasks) (hsending : task.stage = .sending request)
    (now : Rat) :
    Related options cellLength (finalState ((cellSent options task request (.ok true) now).run s))
      t := by
  have hjobs : (({ s with tasks := s.tasks.erase task } : CoverScheduler).acceptedJobs task
      request).Uniform cellLength := acceptedJobs_uniform h.jobs task request
  unfold cellSent endTask acceptSent
  simp only [run_modify_bind, run_get_bind]
  generalize ({ s with tasks := s.tasks.erase task } : CoverScheduler).acceptedJobs task request =
    jobs at hjobs
  by_cases hlive : task.generation = s.generation
  · obtain ⟨cycle, hl⟩ := h.live hmem hlive
    have hseen := hl.seen
    rw [hsending] at hseen
    have hcurrent : ¬ (task.generation ≠ s.generation ∨ cycle.serial ≠ task.cycleSerial) := by
      simp [hlive, hl.serial]
    simp only [hl.current, hcurrent, if_false]
    have hdue := hl.timer
    unfold Timeline.dueAfter at hdue
    have hshown : ∀ generation timer, s.generation ≤ generation → Shown options cellLength
        { s with
          tasks := s.tasks.erase task
          jobs
          generation
          timer
          cycle := some { cycle with nextSlotOrdinal := cycle.nextSlotOrdinal + 1 } } t := by
      intro generation timer hle
      refine ⟨hl.status, hl.running, hl.span.symm, ?_, ?_, ?_, hjobs, ?_⟩
      · show s.seen = t.seen
        rw [hseen]
        exact (List.append_nil _).symm
      · rintro _ ⟨⟩
        exact hl.lanes
      · exact fun other hother => Nat.lt_of_lt_of_le (hl.stale other hother) hle
      · exact fun other hother => hl.stages other (List.mem_of_mem_erase hother)
    show Related options cellLength (finalState (EStateM.run (ite _ _ _) _)) t
    split
    case isTrue hmore =>
      rw [if_pos hmore] at hdue
      refine .inl ⟨hshown _ _ (Nat.le_succ _), ?_⟩
      rw [hdue]
      exact .slot
    case isFalse hmore =>
      rw [if_neg hmore] at hdue
      refine .inl ⟨hshown _ _ (Nat.le_succ _), ?_⟩
      rw [hdue]
      exact .cycleBoundary
  · have hended := h.staleTask hmem hlive [] (by simp)
    rw [List.append_nil] at hended
    have hsame := hended.withJobs hjobs
    split
    · exact hsame
    · rw [if_pos (.inl hlive)]
      exact hsame

/-! ## Runs show what their timelines show -/

theorem enqueue_keeps (h : Related options cellLength s t) (job : CoverJob) :
    Related options cellLength (finalState ((enqueue options job).run s)) t := by
  have hnew : ∀ runtime : JobRuntime, runtime.pendingCell = none → runtime.pendingCancelCell = none →
      ∀ queued byId, (Jobs.mk (s.jobs.runtimes ++ [runtime]) queued byId).Uniform cellLength := by
    intro runtime hcell hcancel queued byId r hr
    rcases List.mem_append.mp hr with hold | hlast
    · exact h.jobs r hold
    · rw [List.mem_singleton.mp hlast, JobRuntime.Uniform, hcell, hcancel]
      exact ⟨nofun, nofun⟩
  unfold enqueue
  rw [run_get_bind, run_ensure_bind]
  split
  case isFalse => exact h
  rw [run_ensure_bind]
  split
  case isFalse => exact h
  rw [run_attempt_bind]
  split
  case h_2 => exact h
  rw [run_ensure_bind]
  split
  case isFalse => exact h
  rw [run_attempt_bind]
  split
  case h_2 => exact h
  exact h.withJobs (hnew _ rfl rfl _ _).sortQueue

theorem cancel_keeps (h : Related options cellLength s t) (jobId : JsString) :
    Related options cellLength (finalState ((cancel jobId).run s)) t := by
  unfold cancel
  rw [run_get_bind]
  split
  · exact h
  · split
    · exact h.withJobs ((h.jobs.removeQueued _).settle _)
    · rw [run_ensure_bind]
      split
      · refine h.withJobs (Jobs.Uniform.sortQueue (h.jobs.update _ fun r hr => ?_))
        exact ⟨hr.1, hr.2⟩
      · exact h

theorem complete_keeps (h : Related options cellLength s t) (jobId : JsString) :
    Related options cellLength (finalState ((complete jobId).run s)) t := by
  unfold complete
  rw [run_get_bind]
  split
  · exact h
  · refine h.withJobs (((h.jobs.removeQueued _).update _ fun r hr => ?_).settle _)
    exact ⟨nofun, hr.2⟩

theorem Related.settled (h : Related options cellLength s t) (hrested : s.Rested) :
    Settled options cellLength s t := by
  rcases h with h | ⟨task, cycle, h⟩
  · exact .inl h
  · exact .inr ⟨task, cycle, h, hrested task h.mem h.generation⟩

/-- What has been seen of a scheduler without a waiting slot is its timeline's. -/
theorem Settled.seen (h : Settled options cellLength s t) : s.seen = t.seen := by
  rcases h with h | ⟨task, cycle, h, hsending⟩
  · exact h.1.seen
  · rw [h.seen, if_pos hsending, List.append_nil]

/-- `start` and `resume` do nothing while a slot runs. -/
theorem Live.start_resume {task : SlotTask} {cycle : CycleRuntime}
    (h : Live options cellLength s t task cycle) (now : Rat) :
    (Cover.start options now).run s = .ok false s ∧
      (Timeline.start options now).run t = .ok false t ∧
      (Cover.resume options now).run s = .ok false s ∧
      (Timeline.resume options now).run t = .ok false t := by
  have hs := h.active
  have ht : t.status = .active := h.status.symm.trans hs
  unfold Cover.start Timeline.start Cover.resume Timeline.resume
  simp only [run_get_bind, hs, ht]
  exact ⟨rfl, rfl, rfl, rfl⟩

theorem control_simulates (hfactory : options.laneFactory.Reliable)
    (hlanes : 0 < options.schedule.coverLanes) (h : Related options cellLength s t)
    {control : Control} (hallowed : Event.Allowed options cellLength (.control control) s)
    (hprompt : Event.Prompt (.control control) s) :
    Related options cellLength (control.step options s)
      (Timeline.step options cellLength control t) := by
  cases control with
  | start now =>
    rcases h with h | ⟨task, cycle, h⟩
    · exact .inl (start_simulates now s t h).final
    · obtain ⟨hs, ht, -, -⟩ := h.start_resume now
      simp only [Control.step, Timeline.step, hs, ht]
      exact .inr ⟨task, cycle, h⟩
  | suspend now => exact .inl (suspend_simulates hfactory now s t (h.settled hprompt)).final
  | resume now =>
    rcases h with h | ⟨task, cycle, h⟩
    · exact .inl (resume_simulates hfactory now s t h).final
    · obtain ⟨-, -, hs, ht⟩ := h.start_resume now
      simp only [Control.step, Timeline.step, hs, ht]
      exact .inr ⟨task, cycle, h⟩
  | stop now => exact .inl (stop_simulates hfactory now s t (h.settled hprompt)).final
  | timer firedAt =>
    rcases h with h | ⟨task, cycle, h⟩
    · exact (timerFired_simulates hfactory hlanes firedAt s t h).final
    · have harmed : s.timer.isSome = true := hallowed
      rw [h.unarmed] at harmed
      cases harmed

/-- The timeline after an event. -/
def Timeline.after (options : CoverSchedulerOptions) (cellLength : Nat) (event : Event)
    (t : Timeline) : Timeline :=
  match event.control? with
  | some control => Timeline.step options cellLength control t
  | none => t

theorem step_simulates (hfactory : options.laneFactory.Reliable)
    (hlanes : 0 < options.schedule.coverLanes) (h : Related options cellLength s t) {event : Event}
    (hallowed : event.Allowed options cellLength s) (hprompt : event.Prompt s) :
    Related options cellLength (step options event s)
      (Timeline.after options cellLength event t) := by
  cases event with
  | control control => exact control_simulates hfactory hlanes h hallowed hprompt
  | enqueue job => exact enqueue_keeps h job
  | cancel jobId => exact cancel_keeps h jobId
  | complete jobId => exact complete_keeps h jobId
  | produced task answer now =>
    show Related options cellLength (ite _ _ _) t
    split
    case isTrue hwaits => exact cellProduced_keeps h hwaits.1 hwaits.2 hallowed
    case isFalse => exact h
  | sent task answer now =>
    have haccepted : answer = .ok true := hallowed
    subst haccepted
    unfold step
    simp only
    split
    case h_1 request hsending =>
      split
      case isTrue hmem => exact cellSent_keeps h hmem hsending now
      case isFalse => exact h
    case h_2 => exact h

/-- A run shows what its timeline shows. -/
theorem runs_simulate (hfactory : options.laneFactory.Reliable)
    (hlanes : 0 < options.schedule.coverLanes) (events : List Event)
    (h : Related options cellLength s t)
    (hallowed : Throughout options (Event.Allowed options cellLength) events s)
    (hprompt : Throughout options Event.Prompt events s) :
    Related options cellLength (runAll options events s)
      (Timeline.runAll options cellLength (events.filterMap Event.control?) t) := by
  induction events generalizing s t with
  | nil => exact h
  | cons event events ih =>
    have hstep := step_simulates hfactory hlanes h hallowed.1 hprompt.1
    have hrest := ih hstep hallowed.2 hprompt.2
    unfold Timeline.after at hrest
    rw [List.filterMap_cons]
    cases hcontrol : event.control? with
    | none =>
      rw [hcontrol] at hrest
      exact hrest
    | some control =>
      rw [hcontrol] at hrest
      exact hrest

end Cover

end P2Party
