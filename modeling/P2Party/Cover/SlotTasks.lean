import Mathlib.Data.List.ReduceOption
import P2Party.Base.Assertion
import P2Party.Cover.JobPlaces
import P2Party.Cover.Independence

/-!
# The slots and the jobs of a scheduler

What holds of a scheduler after any run: `Sound`. Its jobs are in their places, a slot
that still has a job on its lane is the one that runs, and its job has sent what it had
sent when the slot asked for a cell. The environment is arbitrary: producers and lanes
may fail, and answers may come at any time.
-/

namespace P2Party

open Base

namespace Cover

variable {options : CoverSchedulerOptions} {s s₀ : CoverScheduler}

/-- The jobs on the lanes. -/
def CoverScheduler.laneJobs (s : CoverScheduler) : List Nat :=
  match s.cycle with
  | none => []
  | some cycle => (cycle.lanes.map (·.job)).reduceOption

/-- The slots that have not ended are told apart by their generations and belong to
cycles that were opened. -/
structure Numbered (s : CoverScheduler) : Prop where
  distinct : (s.tasks.map (·.generation)).Nodup
  serials : ∀ task ∈ s.tasks, task.cycleSerial < s.cycles
  serial : ∀ cycle, s.cycle = some cycle → cycle.serial < s.cycles

/-- What holds between the operations of a scheduler. -/
structure Sound (s : CoverScheduler) : Prop extends Numbered s where
  placed : s.jobs.Placed s.laneJobs
  bounded : ∀ task ∈ s.tasks, task.generation ≤ s.generation
  waits : ∀ task ∈ s.tasks, task.generation = s.generation → s.timer = none
  held : ∀ task ∈ s.tasks, ∀ n r, s.laneJob task = some n → s.jobs.get n = some r →
    task.generation = s.generation ∧ task.jobSlot = some ⟨n, r.sentCells⟩
  opening : ∀ timer, s.timer = some timer → timer.kind = .openBoundary → s.cycle = none
  busy : s.laneJobs ≠ [] → s.status = .active

/-- No cell was sent since `s₀`, and its slots are those of `s₀`. -/
structure Since (s₀ s : CoverScheduler) : Prop where
  jobs : s₀.jobs.Carries s.jobs
  tasks : s.tasks = s₀.tasks

/-- Sound, with the slots of `s₀`. -/
structure Kept (s₀ s : CoverScheduler) : Prop extends Sound s, Since s₀ s

/-- Without a timer and a running slot; the lanes may still have their jobs. -/
structure Disarmed (s₀ s : CoverScheduler) : Prop extends Numbered s, Since s₀ s where
  placed : s.jobs.Placed s.laneJobs
  stale : ∀ task ∈ s.tasks, task.generation < s.generation
  timer : s.timer = none

/-- Sound, with no job on a lane. -/
def Idle (s₀ s : CoverScheduler) : Prop := Kept s₀ s ∧ s.laneJobs = []

/-- A timer has fired. -/
structure Fired (s₀ s : CoverScheduler) : Prop extends Kept s₀ s where
  stale : ∀ task ∈ s.tasks, task.generation < s.generation
  timer : s.timer = none

/-! ## The lanes -/

theorem laneJob_mem {task : SlotTask} {n : Nat} (h : s.laneJob task = some n) : n ∈ s.laneJobs := by
  unfold CoverScheduler.laneJob at h
  unfold CoverScheduler.laneJobs
  cases hcycle : s.cycle with
  | none =>
    rw [hcycle] at h
    cases h
  | some cycle =>
    rw [hcycle] at h
    dsimp only at h
    split at h
    · obtain ⟨lane, hlane, hjob⟩ := Option.bind_eq_some_iff.mp h
      refine List.reduceOption_mem_iff.mpr (List.mem_map.mpr ⟨lane, ?_, hjob⟩)
      exact List.mem_of_find?_eq_some hlane
    · cases h

theorem laneJob_idle {task : SlotTask} (h : s.laneJobs = []) : s.laneJob task = none := by
  cases hjob : s.laneJob task with
  | none => rfl
  | some n =>
    have hmem := laneJob_mem hjob
    rw [h] at hmem
    cases hmem

theorem idle_jobs (cycle : CycleRuntime) : (cycle.idle.lanes.map (·.job)).reduceOption = [] := by
  unfold CycleRuntime.idle
  rw [List.map_map]
  induction cycle.lanes with
  | nil => rfl
  | cons lane lanes ih => exact ih

theorem laneJobs_of_none (h : s.cycle = none) : s.laneJobs = [] := by
  unfold CoverScheduler.laneJobs
  rw [h]

theorem laneJobs_of_some {cycle : CycleRuntime} (h : s.cycle = some cycle) :
    s.laneJobs = (cycle.lanes.map (·.job)).reduceOption := by
  unfold CoverScheduler.laneJobs
  rw [h]

theorem Sound.idle_of_status (h : Sound s) (hstatus : s.status ≠ .active) : s.laneJobs = [] := by
  by_contra hbusy
  exact hstatus (h.busy hbusy)

theorem Kept.refl (h : Sound s) : Kept s s := ⟨h, .refl _, rfl⟩

/-- A scheduler without jobs on its lanes is sound. -/
theorem Idle.of (hnumbered : Numbered s) (hsince : Since s₀ s) (hplaced : s.jobs.Placed [])
    (hidle : s.laneJobs = []) (hbounded : ∀ task ∈ s.tasks, task.generation ≤ s.generation)
    (hwaits : ∀ task ∈ s.tasks, task.generation = s.generation → s.timer = none)
    (hopening : ∀ timer, s.timer = some timer → timer.kind = .openBoundary → s.cycle = none) :
    Idle s₀ s := by
  refine ⟨⟨⟨hnumbered, by rwa [hidle], hbounded, hwaits, fun task _ n r hjob => ?_, hopening,
    fun hbusy => absurd hidle hbusy⟩, hsince⟩, hidle⟩
  rw [laneJob_idle hidle] at hjob
  cases hjob

theorem Disarmed.idle (h : Disarmed s₀ s) (hplaced : s.jobs.Placed []) (hidle : s.laneJobs = []) :
    Idle s₀ s := by
  refine Idle.of h.toNumbered h.toSince hplaced hidle (fun task htask => Nat.le_of_lt (h.stale task htask))
    (fun _ _ _ => h.timer) fun timer htimer => ?_
  rw [h.timer] at htimer
  cases htimer

theorem Fired.disarmed (h : Fired s₀ s) : Disarmed s₀ s :=
  ⟨h.toNumbered, h.toSince, h.placed, h.stale, h.timer⟩

theorem Idle.placed (h : Idle s₀ s) : s.jobs.Placed [] := h.2 ▸ h.1.placed

/-- The status does not matter to an idle scheduler, nor do the calls and `running`. -/
theorem Idle.with (h : Idle s₀ s) {status : CoverSchedulerStatus} {running : Bool}
    {calls : List Call} : Idle s₀ { s with status, running, calls } :=
  Idle.of ⟨h.1.distinct, h.1.serials, h.1.serial⟩ ⟨h.1.jobs, h.1.tasks⟩ h.placed h.2 h.1.bounded
    h.1.waits h.1.opening

theorem Idle.close (h : Idle s₀ s) {calls : List Call} : Idle s₀ { s with cycle := none, calls } :=
  Idle.of ⟨h.1.distinct, h.1.serials, nofun⟩ ⟨h.1.jobs, h.1.tasks⟩ h.placed rfl h.1.bounded
    h.1.waits fun _ _ _ => rfl

/-- The cycle loses its jobs to an operation that takes each of them from its lane. -/
theorem Disarmed.leave (h : Disarmed s₀ s) {g : Jobs → Nat → Jobs}
    (hplaced : ∀ {jobs n lanes}, Jobs.Placed jobs (n :: lanes) → Jobs.Placed (g jobs n) lanes)
    (hcarries : ∀ jobs n, Jobs.Carries jobs (g jobs n)) {cycle : CycleRuntime}
    (hcycle : s.cycle = some cycle) :
    Idle s₀ { s with
      cycle := some cycle.idle
      jobs := (cycle.lanes.map (·.job)).foldl (fun jobs runtime => match runtime with
        | none => jobs
        | some runtime => g jobs runtime) s.jobs } := by
  have hjobs := h.placed
  rw [laneJobs_of_some hcycle, ← List.append_nil (List.reduceOption _)] at hjobs
  refine Idle.of ⟨h.distinct, h.serials, ?_⟩ ⟨h.jobs.trans (Jobs.Carries.foldl ?_ _ _), h.tasks⟩
    (Jobs.Placed.foldl hplaced _ hjobs) (idle_jobs cycle)
    (fun task htask => Nat.le_of_lt (h.stale task htask)) (fun _ _ _ => h.timer) fun timer htimer => ?_
  · intro c hc
    cases hc
    exact h.serial cycle hcycle
  · intro jobs runtime
    cases runtime with
    | none => exact .refl jobs
    | some n => exact hcarries jobs n
  · change s.timer = some timer at htimer
    rw [h.timer] at htimer
    cases htimer

/-! ## The statements of the methods -/

theorem disarm_leads : Leads (Kept s₀) (Disarmed s₀) disarm := fun _ h =>
  ⟨⟨h.distinct, h.serials, h.serial⟩, ⟨h.jobs, h.tasks⟩, h.placed,
    fun task htask => Nat.lt_succ_of_le (h.bounded task htask), rfl⟩

theorem setStatus_disarmed (status : CoverSchedulerStatus) :
    Leads (Disarmed s₀) (Disarmed s₀) (setStatus status) := fun _ h =>
  ⟨⟨h.distinct, h.serials, h.serial⟩, ⟨h.jobs, h.tasks⟩, h.placed, h.stale, h.timer⟩

theorem interruptCycle_leads : Leads (Disarmed s₀) (Idle s₀) interruptCycle := by
  intro s h
  show Idle s₀ (match s.cycle with | none => s | some cycle => _)
  cases hcycle : s.cycle with
  | none =>
    have hidle := laneJobs_of_none hcycle
    exact h.idle (hidle ▸ h.placed) hidle
  | some cycle => exact h.leave Jobs.Placed.requeue Jobs.Carries.requeue hcycle

theorem finalizeCycleJobs_leads : Leads (Disarmed s₀) (Idle s₀) finalizeCycleJobs := by
  intro s h
  show Idle s₀ (match s.cycle with | none => s | some cycle => _)
  cases hcycle : s.cycle with
  | none =>
    have hidle := laneJobs_of_none hcycle
    exact h.idle (hidle ▸ h.placed) hidle
  | some cycle => exact h.leave Jobs.Placed.finalize Jobs.Carries.finalize hcycle

theorem closeCurrentCycle_leads (reason : CloseReason) (now : Rat) :
    Leads (Idle s₀) (fun s => Idle s₀ s ∧ s.cycle = none) (closeCurrentCycle options reason now) := by
  intro s h
  unfold closeCurrentCycle
  rw [run_get_bind]
  cases hcycle : s.cycle with
  | none => exact ⟨h, hcycle⟩
  | some cycle => exact ⟨h.close, rfl⟩

/-- With no job on a lane, whatever the timer is. -/
structure Cleared (s₀ s : CoverScheduler) : Prop extends Numbered s, Since s₀ s where
  placed : s.jobs.Placed []
  idle : s.laneJobs = []
  bounded : ∀ task ∈ s.tasks, task.generation ≤ s.generation

theorem Idle.cleared (h : Idle s₀ s) : Cleared s₀ s :=
  ⟨h.1.toNumbered, h.1.toSince, h.placed, h.2, h.1.bounded⟩

theorem arm_leads (deadlineMs : Int) (kind : TimerKind) :
    Leads (fun s => Cleared s₀ s ∧ (kind = .openBoundary → s.cycle = none)) (Kept s₀)
      (arm deadlineMs kind) := by
  rintro s ⟨h, hkind⟩
  suffices hidle : Idle s₀ { s with
      generation := s.generation + 1, timer := some ⟨deadlineMs, kind⟩ } from hidle.1
  refine Idle.of ⟨h.distinct, h.serials, h.serial⟩ ⟨h.jobs, h.tasks⟩ h.placed h.idle
    (fun task htask => Nat.le_succ_of_le (h.bounded task htask)) ?_ ?_
  · intro task htask hcurrent
    exact absurd hcurrent (Nat.ne_of_lt (Nat.lt_succ_of_le (h.bounded task htask)))
  · intro timer htimer hopening
    cases htimer
    exact hkind hopening

theorem armCycleBoundary_leads (deadlineMs : Int) :
    Leads (Idle s₀) (Kept s₀) (armCycleBoundary deadlineMs) :=
  (arm_leads deadlineMs .cycleBoundary).mono (fun _ h => ⟨h.cleared, nofun⟩) fun _ h => h

theorem armOpenBoundary_leads (deadlineMs : Int) :
    Leads (fun s => Idle s₀ s ∧ s.cycle = none) (Kept s₀) (armOpenBoundary deadlineMs) :=
  (arm_leads deadlineMs .openBoundary).mono (fun _ h => ⟨h.1.cleared, fun _ => h.2⟩) fun _ h => h

theorem armNextCycle_leads (now : Rat) :
    Leads (fun s => Idle s₀ s ∧ s.cycle = none) (Kept s₀) (armNextCycle options now) := by
  have hkept : ∀ s, Idle s₀ s ∧ s.cycle = none → Kept s₀ s := fun _ h => h.1.1
  unfold armNextCycle
  refine Leads.read fun s₁ _ => Leads.mono ?_ (fun _ h => h.1) fun _ h => h
  exact .ite (fun _ => .attempt hkept fun boundary _ => armOpenBoundary_leads boundary)
    fun _ => .pure _ hkept

/-- What the methods do with a cycle that they leave before or after its end. -/
theorem leaveCycle_leads {β : Type} (endMs : Int) (now : Rat) {m n : SchedulerM β}
    (hm : Leads (Kept s₀) (Kept s₀) m) (hn : Leads (fun s => Idle s₀ s ∧ s.cycle = none) (Kept s₀) n) :
    Leads (Idle s₀) (Kept s₀) (if now ≤ endMs then armCycleBoundary endMs >>= fun _ => m
      else closeCurrentCycle options .lateCleanup now >>= fun _ => n) :=
  .ite (fun _ => .bind (fun _ h => h) (armCycleBoundary_leads endMs) fun _ => hm)
    fun _ => .bind (fun _ h => h.1.1) (closeCurrentCycle_leads _ _) fun _ => hn

/-! ## The methods -/

theorem suspend_leads (now : Rat) : Leads (Kept s₀) (Kept s₀) (suspend options now) := by
  unfold suspend
  refine .read fun s₁ _ => Leads.mono (P := Kept s₀) ?_ (fun _ h => h.1) fun _ h => h
  refine .ite (fun _ => .pure _ fun _ h => h) fun _ => ?_
  refine .seq (fun _ => ⟨_, _, rfl⟩) disarm_leads fun _ => ?_
  refine .seq (fun _ => ⟨_, _, rfl⟩) (setStatus_disarmed _) fun _ => ?_
  refine .read fun s₂ hs₂ => Leads.mono (P := fun s => Disarmed s₀ s ∧ s.cycle = s₂.cycle) ?_
    (fun _ h => ⟨h.1, by rw [h.2]⟩) fun _ h => h
  cases hcycle : s₂.cycle with
  | none =>
    refine .pure _ fun s h => ?_
    have hidle := laneJobs_of_none h.2
    exact (h.1.idle (hidle ▸ h.1.placed) hidle).1
  | some cycle =>
    refine .seq (fun _ => ⟨_, _, rfl⟩) (interruptCycle_leads.mono (fun _ h => h.1) fun _ h => h)
      fun _ => ?_
    exact leaveCycle_leads _ _ (.pure _ fun _ h => h) (.pure _ fun _ h => h.1.1)

theorem handlerFailed_leads (now : Rat) : Leads (Kept s₀) (Kept s₀) (handlerFailed options now) := by
  unfold handlerFailed
  exact .bind (fun _ h => h) (suspend_leads now) fun _ => .pure _ fun _ h => h

theorem start_leads (now : Rat) : Leads (Kept s₀) (Kept s₀) (start options now) := by
  unfold start
  refine .read fun s₁ hs₁ => .ite (fun _ => .pure _ fun _ h => h.1) fun hstopped => ?_
  -- a stopped scheduler has no job on its lanes
  have hidle : s₁.laneJobs = [] := hs₁.idle_of_status (by
    rw [not_not.mp hstopped]
    exact nofun)
  refine Leads.mono (P := Idle s₀) ?_ (fun s h => ⟨h.1, by rw [h.2]; exact hidle⟩) fun _ h => h
  refine .change (fun _ h => h.with) (.change (fun _ h => h.with) ?_)
  refine .read fun s₂ _ => Leads.mono (P := fun s => Idle s₀ s ∧ s.cycle = s₂.cycle) ?_
    (fun _ h => ⟨h.1, by rw [h.2]⟩) fun _ h => h
  cases s₂.cycle with
  | none =>
    refine .attempt (fun _ h => h.1.1) fun boundary _ => ?_
    exact .bind (fun _ h => h) (armOpenBoundary_leads boundary) fun _ => .pure _ fun _ h => h
  | some cycle =>
    refine Leads.mono ?_ (fun _ h => h.1) fun _ h => h
    exact .bind (fun _ h => h) (armCycleBoundary_leads cycle.endMs) fun _ => .pure _ fun _ h => h

/-- Wait for the next boundary, with no cycle open. -/
theorem armOpening_leads (now : Rat) (inclusive : Bool) :
    Leads (fun s => Idle s₀ s ∧ s.cycle = none) (Kept s₀) (do
      armOpenBoundary (← attempt (nextCycleBoundary options.schedule now inclusive))
      return true) :=
  .attempt (fun _ h => h.1.1) fun boundary _ =>
    .bind (fun _ h => h) (armOpenBoundary_leads boundary) fun _ => .pure _ fun _ h => h

theorem resume_leads (now : Rat) : Leads (Kept s₀) (Kept s₀) (resume options now) := by
  unfold resume
  refine .read fun s₁ hs₁ => .ite (fun _ => .pure _ fun _ h => h.1) fun hsuspended => ?_
  have hidle : s₁.laneJobs = [] := hs₁.idle_of_status (by
    rw [not_not.mp hsuspended]
    exact nofun)
  refine Leads.mono (P := Idle s₀) ?_ (fun s h => ⟨h.1, by rw [h.2]; exact hidle⟩) fun _ h => h
  refine .change (fun _ h => h.with) (.seq (Q := Idle s₀) (fun _ => ⟨_, _, rfl⟩) ?_ fun _ => ?_)
  · intro s h
    exact (disarm_leads s h.1).idle h.placed h.2
  refine .change (fun _ h => h.with) ?_
  refine .read fun s₂ _ => Leads.mono (P := fun s => Idle s₀ s ∧ s.cycle = s₂.cycle) ?_
    (fun _ h => ⟨h.1, by rw [h.2]⟩) fun _ h => h
  cases s₂.cycle with
  | none => exact armOpening_leads now false
  | some cycle =>
    refine Leads.mono (P := Idle s₀) ?_ (fun _ h => h.1) fun _ h => h
    refine .ite (fun _ => ?_) fun _ => ?_
    · exact .bind (fun _ h => h) (armCycleBoundary_leads cycle.endMs) fun _ => .pure _ fun _ h => h
    · exact .bind (fun _ h => h.1.1) (closeCurrentCycle_leads _ _) fun _ => armOpening_leads now false

theorem settleAll_leads :
    Leads (Disarmed s₀)
      (fun s => Disarmed s₀ s ∧ ∀ n r, s.jobs.get n = some r → r.settled = true) settleAll := by
  intro s h
  obtain ⟨hplaced, hcarries, -⟩ := h.placed.settleEach (s.jobs.byId.entries.map Prod.snd)
  exact ⟨⟨⟨h.distinct, h.serials, h.serial⟩, ⟨h.jobs.trans hcarries, h.tasks⟩, hplaced, h.stale,
    h.timer⟩, fun n r hr => h.placed.settleAll hr⟩

theorem stop_leads (now : Rat) : Leads (Kept s₀) (Kept s₀) (stop options now) := by
  unfold stop
  refine .read fun s₁ _ => Leads.mono (P := Kept s₀) ?_ (fun _ h => h.1) fun _ h => h
  refine .ite (fun _ => .pure _ fun _ h => h) fun _ => ?_
  refine .change (Q := Kept s₀) (fun s h => ?_) ?_
  · exact ⟨⟨⟨h.distinct, h.serials, h.serial⟩, h.placed, h.bounded, h.waits, h.held, h.opening, h.busy⟩,
      h.jobs, h.tasks⟩
  refine .seq (fun _ => ⟨_, _, rfl⟩) disarm_leads fun _ => ?_
  refine .seq (fun _ => ⟨_, _, rfl⟩) (setStatus_disarmed _) fun _ => ?_
  refine .seq (fun _ => ⟨_, _, rfl⟩) settleAll_leads fun _ => ?_
  refine .read fun s₂ _ => Leads.mono
    (P := fun s => (Disarmed s₀ s ∧ ∀ n r, s.jobs.get n = some r → r.settled = true) ∧
      s.cycle = s₂.cycle) ?_ (fun _ h => ⟨h.1, by rw [h.2]⟩) fun _ h => h
  cases s₂.cycle with
  | none =>
    refine .pure _ fun s h => ?_
    have hidle := laneJobs_of_none h.2
    exact (h.1.1.idle (hidle ▸ h.1.1.placed) hidle).1
  | some cycle =>
    refine .change (Q := Idle s₀) (fun s h => ?_)
      (leaveCycle_leads _ _ (.pure _ fun _ h => h) (.pure _ fun _ h => h.1.1))
    obtain ⟨⟨h, hsettled⟩, hcycle⟩ := h
    have hidle : ({ s with cycle := s.cycle.map CycleRuntime.idle } : CoverScheduler).laneJobs = [] := by
      unfold CoverScheduler.laneJobs
      rw [hcycle]
      exact idle_jobs cycle
    refine Disarmed.idle ⟨⟨h.distinct, h.serials, fun c hc => ?_⟩, ⟨h.jobs, h.tasks⟩, ?_, h.stale, h.timer⟩
      (h.placed.dropAll hsettled) hidle
    · rw [hcycle] at hc
      cases hc
      exact h.serial cycle hcycle
    · rw [hidle]
      exact h.placed.dropAll hsettled

theorem degrade_leads (now : Rat) : Leads (Kept s₀) (Kept s₀) (degrade options now) := by
  unfold degrade
  refine .read fun s₁ _ => Leads.mono (P := Kept s₀) ?_ (fun _ h => h.1) fun _ h => h
  refine .ite (fun _ => .pure _ fun _ h => h) fun _ => ?_
  refine .seq (fun _ => ⟨_, _, rfl⟩) disarm_leads fun _ => ?_
  refine .seq (fun _ => ⟨_, _, rfl⟩) (setStatus_disarmed _) fun _ => ?_
  refine .read fun s₂ _ => Leads.mono (P := fun s => Disarmed s₀ s ∧ s.cycle = s₂.cycle) ?_
    (fun _ h => ⟨h.1, by rw [h.2]⟩) fun _ h => h
  cases s₂.cycle with
  | none =>
    refine (armNextCycle_leads now).mono (fun s h => ?_) fun _ h => h
    have hidle := laneJobs_of_none h.2
    exact ⟨h.1.idle (hidle ▸ h.1.placed) hidle, h.2⟩
  | some cycle =>
    refine .seq (fun _ => ⟨_, _, rfl⟩) (interruptCycle_leads.mono (fun _ h => h.1) fun _ h => h)
      fun _ => ?_
    refine .ite (fun _ => armCycleBoundary_leads _) fun _ => ?_
    exact .bind (fun _ h => h.1.1) (closeCurrentCycle_leads _ _) fun _ => armNextCycle_leads now

/-! ## A new cycle -/

theorem laneContexts_jobs (jobs : Jobs) (span : CycleSpan) (selected : List (Option Nat)) :
    (laneContexts jobs span selected).map (·.job) = selected := by
  unfold laneContexts
  refine List.ext_getElem? fun i => ?_
  rw [List.getElem?_map, List.getElem?_mapIdx]
  cases selected[i]? <;> rfl

theorem Jobs.mem_dequeueMany {jobs : Jobs} {n : Nat} (count : Nat)
    (h : n ∈ (jobs.dequeueMany count).1.reduceOption) : n ∈ jobs.queued := by
  induction count generalizing jobs with
  | zero => cases h
  | succ count ih =>
    unfold Jobs.dequeueMany Jobs.dequeue at h
    have hsorted := jobs.sortQueue_perm
    cases hqueued : jobs.sortQueue.queued with
    | nil =>
      rw [hqueued] at h
      exact ih h
    | cons m rest =>
      rw [hqueued] at h hsorted
      rcases List.mem_cons.mp h with rfl | h
      · exact hsorted.mem_iff.mp List.mem_cons_self
      · exact hsorted.mem_iff.mp (List.mem_cons_of_mem m (ih h))

theorem Jobs.Carries.admitSelected {jobs : Jobs} {selected : List (Option Nat)}
    (hlive : ∀ n ∈ selected.reduceOption, ∀ r, jobs.get n = some r → r.settled = false) :
    Jobs.Carries jobs (jobs.admitSelected selected) := by
  unfold Jobs.admitSelected
  induction selected generalizing jobs with
  | nil => exact .refl jobs
  | cons runtime selected ih =>
    cases runtime with
    | none => exact ih hlive
    | some n =>
      have hstep : Jobs.Carries jobs
          (jobs.update n fun r => { r with state := .admitted, everAdmitted := true }) := by
        refine .update n fun r hr => ⟨rfl, rfl, fun hsettled => ?_, fun _ => rfl⟩
        rw [hlive n List.mem_cons_self r hr] at hsettled
        cases hsettled
      refine hstep.trans (ih fun m hm r' hr' => ?_)
      obtain ⟨r, hr, hcarried⟩ := hstep.origin hr'
      by_cases hmn : m = n
      · subst hmn
        rw [Jobs.get_update_self _ hr] at hr'
        cases hr'
        exact hlive m List.mem_cons_self r hr
      · rw [Jobs.get_update_ne _ hmn] at hr'
        exact hlive m (List.mem_cons_of_mem n hm) r' hr'

/-- The lanes of a new cycle, before it is known whether all of them are open. -/
structure Opened (s₀ : CoverScheduler) (selected : List (Option Nat)) (cycle : CycleRuntime)
    (s : CoverScheduler) : Prop extends Numbered s, Since s₀ s where
  placed : s.jobs.Placed selected.reduceOption
  bounded : ∀ task ∈ s.tasks, task.generation ≤ s.generation
  current : s.cycle = some cycle
  older : ∀ task ∈ s.tasks, task.cycleSerial < cycle.serial

/-- Not every lane is open: the jobs go back to the queue. -/
theorem Opened.fail {selected : List (Option Nat)} {cycle : CycleRuntime}
    (h : Opened s₀ selected cycle s) :
    Cleared s₀ { s with
      cycle := s.cycle.map CycleRuntime.idle
      jobs := s.jobs.requeueAll selected } := by
  have hplaced := h.placed
  rw [← List.append_nil selected.reduceOption] at hplaced
  refine ⟨⟨h.distinct, h.serials, fun c hc => ?_⟩, ⟨h.jobs.trans ?_, h.tasks⟩,
    hplaced.foldl Jobs.Placed.requeue selected, ?_, h.bounded⟩
  · change s.cycle.map _ = some c at hc
    rw [h.current] at hc
    cases hc
    exact h.serial cycle h.current
  · refine Jobs.Carries.foldl (fun jobs runtime => ?_) selected s.jobs
    cases runtime with
    | none => exact .refl jobs
    | some n => exact .requeue jobs n
  · unfold CoverScheduler.laneJobs
    dsimp only
    rw [h.current]
    exact idle_jobs cycle

/-- Every lane is open: the first slot is armed. -/
theorem Opened.activate {selected : List (Option Nat)} {cycle : CycleRuntime}
    (h : Opened s₀ selected cycle s) (hactive : s.status = .active)
    (hlanes : cycle.lanes.map (·.job) = selected) (deadlineMs : Int) (slot : CoverSlot) :
    Kept s₀ { s with
      generation := s.generation + 1
      timer := some ⟨deadlineMs, .slot slot⟩ } := by
  refine ⟨⟨⟨h.distinct, h.serials, h.serial⟩, ?_,
    fun task htask => Nat.le_succ_of_le (h.bounded task htask), fun task htask hcurrent => ?_,
    fun task htask n r hjob => ?_, fun timer htimer hopening => ?_, fun _ => hactive⟩, h.jobs, h.tasks⟩
  · have hjobs := laneJobs_of_some h.current
    rw [hlanes] at hjobs
    show s.jobs.Placed s.laneJobs
    rw [hjobs]
    exact h.placed
  · exact absurd hcurrent (Nat.ne_of_lt (Nat.lt_succ_of_le (h.bounded task htask)))
  · unfold CoverScheduler.laneJob at hjob
    dsimp only at hjob
    rw [h.current] at hjob
    dsimp only at hjob
    rw [if_neg (Nat.ne_of_gt (h.older task htask))] at hjob
    cases hjob
  · cases htimer
    cases hopening

/-- The queue gives its first jobs to the lanes of a new cycle. -/
theorem Idle.open (h : Idle s₀ s) {selected : List (Option Nat)} {jobs : Jobs} {count : Nat}
    (hselect : s.jobs.dequeueMany count = (selected, jobs)) (span : CycleSpan)
    (lanes : List LaneRuntime) (calls : List Call) :
    Opened s₀ selected ⟨span, s.cycles, lanes, 0⟩ { s with
      jobs := jobs.admitSelected selected, calls
      cycle := some ⟨span, s.cycles, lanes, 0⟩
      cycles := s.cycles + 1 } := by
  have hplaced := h.placed.dequeueMany count
  have hruntimes := (Jobs.dequeueMany_runtimes count s.jobs).1
  have hmem : ∀ n ∈ (s.jobs.dequeueMany count).1.reduceOption, n ∈ s.jobs.queued :=
    fun n hn => Jobs.mem_dequeueMany count hn
  rw [hselect] at hplaced hruntimes hmem
  rw [List.append_nil] at hplaced
  have hget : ∀ n, jobs.get n = s.jobs.get n := fun n => congrArg (·[n]?) hruntimes
  refine ⟨⟨h.1.distinct, fun task htask => Nat.lt_succ_of_lt (h.1.serials task htask), fun c hc => ?_⟩,
    ⟨h.1.jobs.trans ((Jobs.Carries.of_get hget).trans (.admitSelected fun n hn r hr => ?_)), h.1.tasks⟩,
    hplaced.admitSelected selected, h.1.bounded, rfl, h.1.serials⟩
  · cases hc
    exact Nat.lt_succ_self s.cycles
  · obtain ⟨q, hq, hlive⟩ := h.1.placed.waiting n (hmem n hn)
    rw [hget, hq] at hr
    cases hr
    exact hlive

theorem openCycle_leads (boundaryMs : Int) (generation : Nat) (now : Rat) :
    Leads (fun s => Idle s₀ s ∧ s.cycle = none) (Kept s₀)
      (openCycle options boundaryMs generation now) := by
  unfold openCycle
  refine .read fun s₁ _ => .ite (fun _ => .pure _ fun _ h => h.1.1.1) fun _ => ?_
  refine .attempt (fun _ h => h.1.1.1) fun cycleIndex _ => ?_
  refine .ensure (fun _ h => h.1.1.1) fun _ => ?_
  rcases hselect : s₁.jobs.dequeueMany options.schedule.coverLanes with ⟨selected, jobs⟩
  dsimp only
  generalize hspan : CycleSpan.mk cycleIndex boundaryMs _ = span
  have hjobs := laneContexts_jobs (jobs.admitSelected selected) span selected
  generalize laneContexts (jobs.admitSelected selected) span selected = lanes at hjobs ⊢
  have hfilter : ∀ p : LaneRuntime → Bool, (lanes.filter p).length = lanes.length → lanes.filter p = lanes :=
    fun p h => List.filter_eq_self.mpr (List.length_filter_eq_length_iff.mp h)
  specialize hfilter fun lane => options.laneFactory.opens cycleIndex lane.laneIndex
  generalize lanes.filter _ = opened at hfilter ⊢
  refine .change (Q := Opened s₀ selected ⟨span, s₁.cycles, opened, 0⟩) (fun s h => ?_)
    (.ite (fun _ => ?_) fun hall => ?_)
  · obtain ⟨⟨h, -⟩, rfl⟩ := h
    exact h.open hselect _ opened _
  · refine .change (Q := Opened s₀ selected ⟨span, s₁.cycles, opened, 0⟩) (fun s h => ?_)
      (.change (fun s h => h.fail) ?_)
    · exact ⟨⟨h.distinct, h.serials, h.serial⟩, ⟨h.jobs, h.tasks⟩, h.placed, h.bounded, h.current, h.older⟩
    · exact (arm_leads _ .cycleBoundary).mono (fun _ h => ⟨h, nofun⟩) fun _ h => h
  · refine .change (Q := fun s => Opened s₀ selected ⟨span, s₁.cycles, opened, 0⟩ s ∧ s.status = .active)
      (fun s h => ?_) (.read fun s₂ hs₂ => ?_)
    · exact ⟨⟨⟨h.distinct, h.serials, h.serial⟩, ⟨h.jobs, h.tasks⟩, h.placed, h.bounded, h.current,
        h.older⟩, rfl⟩
    · rw [hs₂.1.current]
      rintro s ⟨⟨h, hactive⟩, -⟩
      refine h.activate hactive ?_ _ _
      rw [hfilter (not_not.mp hall)]
      exact hjobs

/-! ## The timer -/

theorem handleCycleBoundary_leads (boundaryMs : Int) (now : Rat) :
    Leads (Fired s₀) (Kept s₀) (handleCycleBoundary options boundaryMs now) := by
  unfold handleCycleBoundary
  refine .read fun s₁ _ => Leads.mono (P := Fired s₀) ?_ (fun _ h => h.1) fun _ h => h
  cases s₁.cycle with
  | none => exact .pure _ fun _ h => h.toKept
  | some cycle =>
    refine .ite (fun _ => .pure _ fun _ h => h.toKept) fun _ => ?_
    refine .seq (fun _ => ⟨_, _, rfl⟩)
      (finalizeCycleJobs_leads.mono (fun _ h => h.disarmed) fun _ h => h) fun _ => ?_
    refine .bind (fun _ h => h.1.1) (closeCurrentCycle_leads .boundary now) fun closedCleanly => ?_
    refine .ite (fun _ => ?_) fun _ => .ite (fun _ => .pure _ fun _ h => h.1.1) fun _ => ?_
    · exact .change (fun s h => ⟨h.1.with, h.2⟩) (armNextCycle_leads now)
    · exact .recover (openCycle_leads _ _ _) (handlerFailed_leads now)

theorem handleLateTimer_leads (kind : TimerKind) (now : Rat) :
    Leads (Fired s₀) (Kept s₀) (handleLateTimer options kind now) := by
  have hlate : Leads (Fired s₀) (Kept s₀) (do
      interruptCycle
      let _ ← closeCurrentCycle options .lateCleanup now
      modify fun s => { s with status := if s.status = .stopped then .stopped else .suspended } :
      SchedulerM Unit) := by
    refine .seq (fun _ => ⟨_, _, rfl⟩) (interruptCycle_leads.mono (fun _ h => h.disarmed) fun _ h => h)
      fun _ => ?_
    exact .bind (fun _ h => h.1.1) (closeCurrentCycle_leads _ _) fun _ =>
      .change_last fun s h => h.1.with.1
  unfold handleLateTimer
  cases kind with
  | slot _ => exact (degrade_leads now).mono (fun _ h => h.toKept) fun _ h => h
  | openBoundary => exact hlate
  | cycleBoundary => exact hlate

/-- A slot has started on a lane with or without a job. -/
structure Started (s₀ s : CoverScheduler) : Prop extends Sound s where
  jobs : s.jobs = s₀.jobs
  tasks : ∃ generation slot serial job, (∀ n, job = some n → (s.jobs.get n).isSome = true) ∧
    s.tasks = s₀.tasks ++
      [⟨generation, slot, serial, jobSlot s.jobs job, requestForSlot s.jobs job slot⟩]

theorem sendSlot_leads (slot : CoverSlot) (now : Rat) (h : Fired s₀ s) (hjobs : s.jobs = s₀.jobs) :
    Kept s₀ (finalState ((sendSlot options slot s.generation now).run s)) ∨
      Started s₀ (finalState ((sendSlot options slot s.generation now).run s)) := by
  unfold sendSlot
  rw [run_get_bind]
  cases hcycle : s.cycle with
  | none => exact .inl h.toKept
  | some cycle =>
    dsimp only
    by_cases hactive : s.status = .active
    · rw [if_neg (by simp [hactive])]
      cases hlane : cycle.lanes.find? fun lane => lane.laneIndex = slot.laneIndex with
      | none => exact .inl (degrade_leads now s h.toKept)
      | some lane =>
        right
        have hknown : ∀ n, lane.job = some n → (s.jobs.get n).isSome = true := by
          intro n hn
          refine h.placed.known n ?_
          rw [laneJobs_of_some hcycle]
          exact List.reduceOption_mem_iff.mpr
            (List.mem_map.mpr ⟨lane, List.mem_of_find?_eq_some hlane, hn⟩)
        refine ⟨⟨⟨?_, ?_, h.serial⟩, h.placed, ?_, fun _ _ _ => h.timer, ?_, h.opening, h.busy⟩, hjobs,
          s.generation, slot, cycle.serial, lane.job, hknown, ?_⟩
        · show ((s.tasks ++ [_]).map SlotTask.generation).Nodup
          rw [List.map_append]
          refine List.nodup_append.mpr ⟨h.distinct, List.nodup_singleton _, fun a ha b hb hab => ?_⟩
          obtain ⟨task, htask, rfl⟩ := List.mem_map.mp ha
          rw [List.mem_singleton.mp hb] at hab
          exact absurd hab (Nat.ne_of_lt (h.stale task htask))
        · intro task htask
          rcases List.mem_append.mp htask with htask | htask
          · exact h.serials task htask
          · rw [List.mem_singleton.mp htask]
            exact h.serial cycle hcycle
        · intro task htask
          rcases List.mem_append.mp htask with htask | htask
          · exact h.bounded task htask
          · rw [List.mem_singleton.mp htask]
            exact Nat.le_refl s.generation
        · intro task htask n r hjob hr
          rcases List.mem_append.mp htask with htask | htask
          · exact h.held task htask n r hjob hr
          · rw [List.mem_singleton.mp htask] at hjob ⊢
            refine ⟨rfl, ?_⟩
            change s.jobs.get n = some r at hr
            have hlaneJob : lane.job = some n := by
              unfold CoverScheduler.laneJob at hjob
              change (match s.cycle with | none => none | some cycle => _) = some n at hjob
              rw [hcycle] at hjob
              dsimp only at hjob
              rw [if_pos rfl, hlane] at hjob
              exact hjob
            show jobSlot s.jobs lane.job = _
            rw [hlaneJob]
            unfold jobSlot
            rw [Option.bind_some, hr]
            rfl
        · show s.tasks ++ _ = _
          rw [h.tasks]
          rfl
    · rw [if_pos (.inr hactive)]
      exact .inl h.toKept

theorem timerFired_leads (firedAt : Rat) (h : Sound s) :
    Kept s (finalState ((timerFired options firedAt).run s)) ∨
      Started s (finalState ((timerFired options firedAt).run s)) := by
  unfold timerFired
  rw [run_get_bind]
  cases htimer : s.timer with
  | none => exact .inl (.refl h)
  | some timer =>
    dsimp only
    by_cases hearly : firedAt < timer.deadlineMs
    · rw [if_pos hearly]
      exact .inl (.refl h)
    · rw [if_neg hearly]
      have hfired : Fired s { s with timer := none } := by
        refine ⟨⟨⟨⟨h.distinct, h.serials, h.serial⟩, h.placed, h.bounded, fun _ _ _ => rfl, h.held, nofun,
          h.busy⟩, .refl _, rfl⟩, fun task htask => ?_, rfl⟩
        refine Nat.lt_of_le_of_ne (h.bounded task htask) fun hcurrent => ?_
        have hnone := h.waits task htask hcurrent
        rw [htimer] at hnone
        cases hnone
      show Kept s (finalState (EStateM.run (ite _ _ _) { s with timer := none })) ∨
        Started s (finalState (EStateM.run (ite _ _ _) { s with timer := none }))
      by_cases hlate : firedAt > timer.deadlineMs + options.maxTimerDriftMs
      · rw [if_pos hlate]
        exact .inl (handleLateTimer_leads _ _ _ hfired)
      · rw [if_neg hlate]
        cases hkind : timer.kind with
        | openBoundary =>
          have hnone := h.opening timer htimer hkind
          have hidle : Idle s { s with timer := none } := ⟨hfired.toKept, laneJobs_of_none hnone⟩
          exact .inl (Leads.recover (openCycle_leads _ _ _) (handlerFailed_leads firedAt) _ ⟨hidle, hnone⟩)
        | cycleBoundary => exact .inl (handleCycleBoundary_leads _ _ _ hfired)
        | slot slot => exact sendSlot_leads slot firedAt hfired rfl

/-! ## The job calls -/

/-- Only the jobs change, and no job on a lane is sent for. -/
theorem Sound.withJobs (h : Sound s) {jobs : Jobs} (hplaced : jobs.Placed s.laneJobs)
    (hsent : ∀ n r, s.jobs.get n = some r → ∃ r', jobs.get n = some r' ∧ r'.sentCells = r.sentCells) :
    Sound { s with jobs } := by
  refine ⟨⟨h.distinct, h.serials, h.serial⟩, hplaced, h.bounded, h.waits, fun task htask n r' hjob hr' => ?_,
    h.opening, h.busy⟩
  obtain ⟨r, hr⟩ := Option.isSome_iff_exists.mp (h.placed.known n (laneJob_mem hjob))
  obtain ⟨q, hq, hsent⟩ := hsent n r hr
  change jobs.get n = some r' at hr'
  rw [hq] at hr'
  cases hr'
  rw [hsent]
  exact h.held task htask n r hjob hr

theorem Kept.withJobs (h : Sound s) {jobs : Jobs} (hplaced : jobs.Placed s.laneJobs)
    (hcarries : s.jobs.Carries jobs) : Kept s { s with jobs } := by
  refine ⟨h.withJobs hplaced fun n r hr => ?_, hcarries, rfl⟩
  obtain ⟨r', hr', hcarried⟩ := hcarries.get hr
  exact ⟨r', hr', hcarried.sentCells⟩

theorem live_eq {jobs : Jobs} {jobId : JsString} {n : Nat} {r : JobRuntime}
    (h : jobs.live jobId = some (n, r)) : jobs.get n = some r ∧ r.settled = false := by
  unfold Jobs.live at h
  split at h
  · cases h
  · split at h
    · cases h
    · split at h
      · cases h
      · cases h
        exact ⟨‹_›, Bool.not_eq_true _ ▸ ‹_›⟩

theorem cancel_kept (h : Sound s) (jobId : JsString) :
    Kept s (finalState ((cancel jobId).run s)) := by
  unfold cancel
  rw [run_get_bind]
  cases hlive : s.jobs.live jobId with
  | none => exact .refl h
  | some found =>
    obtain ⟨n, r⟩ := found
    obtain ⟨hr, hunsettled⟩ := live_eq hlive
    dsimp only
    split
    · refine Kept.withJobs h ?_ ?_
      · rw [h.placed.settle_removed]
        exact h.placed.settle n
      · rw [h.placed.settle_removed]
        exact .settle s.jobs n
    · rw [run_ensure_bind]
      split
      · refine Kept.withJobs h (Jobs.Placed.sortQueue (h.placed.update n fun q hq => ?_))
          ((Jobs.Carries.update n fun q hq => ?_).trans (.of_get fun _ => rfl))
        · exact ⟨rfl, rfl, fun _ hunended => ⟨rfl, hunended.2⟩⟩
        · refine ⟨rfl, rfl, fun hsettled => ?_, fun _ => rfl⟩
          rw [hr] at hq
          cases hq
          rw [hunsettled] at hsettled
          cases hsettled
      · exact .refl h

theorem complete_kept (h : Sound s) (jobId : JsString) :
    Kept s (finalState ((complete jobId).run s)) := by
  unfold complete
  rw [run_get_bind]
  cases hlive : s.jobs.live jobId with
  | none => exact .refl h
  | some found =>
    obtain ⟨n, r⟩ := found
    obtain ⟨hr, hunsettled⟩ := live_eq hlive
    have hremove : ∀ f : JobRuntime → JobRuntime, (f r).job = r.job → (f r).settled = false →
        ((s.jobs.removeQueued n).update n f).settle n = (s.jobs.update n f).settle n := by
      intro f hjob hsettled
      have hf := Jobs.get_update_self f hr
      have hqueue : (s.jobs.update n f).queued.Nodup := h.placed.queue
      refine Jobs.settle_removeQueued hqueue hf hsettled ?_
      rw [hjob]
      exact h.placed.byId_self hr hunsettled
    refine Kept.withJobs h ?_ ?_
    · rw [hremove _ rfl hunsettled]
      exact h.placed.settle_update hr hunsettled rfl hunsettled
    · rw [hremove _ rfl hunsettled]
      exact .settle_update hr hunsettled rfl rfl hunsettled

/-- `enqueue` adds a job that has sent nothing, or throws. -/
theorem enqueue_sound (h : Sound s) (job : CoverJob) :
    Sound (finalState ((enqueue options job).run s)) ∧
      (finalState ((enqueue options job).run s)).tasks = s.tasks ∧
      (finalState ((enqueue options job).run s) = s ∨
        ∃ r : JobRuntime, r.sentCells = 0 ∧ r.pendingCell = none ∧
          (finalState ((enqueue options job).run s)).jobs.runtimes = s.jobs.runtimes ++ [r]) := by
  unfold enqueue
  rw [run_get_bind, run_ensure_bind]
  split
  case isFalse => exact ⟨h, rfl, .inl rfl⟩
  rw [run_ensure_bind]
  split
  case isFalse => exact ⟨h, rfl, .inl rfl⟩
  rename_i hfresh
  rw [run_attempt_bind]
  split
  case h_2 => exact ⟨h, rfl, .inl rfl⟩
  rw [run_ensure_bind]
  split
  case isFalse => exact ⟨h, rfl, .inl rfl⟩
  rw [run_attempt_bind]
  split
  case h_2 => exact ⟨h, rfl, .inl rfl⟩
  have hnone : s.jobs.byId.get job.id = none := by
    rw [OrdMap.get_eq_none_iff, ← OrdMap.has_iff, hfresh]
    exact Bool.false_ne_true
  refine ⟨h.withJobs (Jobs.Placed.sortQueue (h.placed.enqueue hnone rfl ⟨rfl, rfl⟩)) fun n r hr => ?_, rfl,
    .inr ⟨_, rfl, rfl, rfl⟩⟩
  refine ⟨r, ?_, rfl⟩
  show (s.jobs.runtimes ++ [_])[n]? = some r
  rw [Jobs.get_concat, if_neg, hr]
  rintro rfl
  rw [Jobs.get_length] at hr
  cases hr

/-! ## The answers -/

theorem Sound.erase_ne (h : Sound s) {task other : SlotTask} (hmem : task ∈ s.tasks)
    (hother : other ∈ s.tasks.erase task) : other.generation ≠ task.generation := by
  intro hsame
  have hdistinct := h.distinct
  rw [((List.perm_cons_erase hmem).map SlotTask.generation).nodup_iff, List.map_cons,
    List.nodup_cons] at hdistinct
  exact hdistinct.1 (hsame ▸ List.mem_map_of_mem hother)

theorem Sound.endTask (h : Sound s) (task : SlotTask) :
    Sound { s with tasks := s.tasks.erase task } := by
  have hold : ∀ other ∈ s.tasks.erase task, other ∈ s.tasks := fun _ => List.mem_of_mem_erase
  exact ⟨⟨(List.erase_sublist.map _).nodup h.distinct, fun other ho => h.serials other (hold other ho),
    h.serial⟩, h.placed, fun other ho => h.bounded other (hold other ho),
    fun other ho => h.waits other (hold other ho), fun other ho => h.held other (hold other ho), h.opening,
    h.busy⟩

/-- A slot goes to its next stage. -/
theorem Sound.stage (h : Sound s) {task : SlotTask} (hmem : task ∈ s.tasks) (stage : Stage)
    (calls : List Call) :
    Sound { s with calls, tasks := s.tasks.erase task ++ [{ task with stage }] } := by
  -- every slot is one of the old ones, up to its stage
  have hold : ∀ other ∈ s.tasks.erase task ++ [{ task with stage }], ∃ old ∈ s.tasks,
      old.generation = other.generation ∧ old.cycleSerial = other.cycleSerial ∧ old.slot = other.slot ∧
        old.jobSlot = other.jobSlot := by
    intro other ho
    rcases List.mem_append.mp ho with ho | ho
    · exact ⟨other, List.mem_of_mem_erase ho, rfl, rfl, rfl, rfl⟩
    · rw [List.mem_singleton.mp ho]
      exact ⟨task, hmem, rfl, rfl, rfl, rfl⟩
  refine ⟨⟨?_, fun other ho => ?_, h.serial⟩, h.placed, fun other ho => ?_, fun other ho hcurrent => ?_,
    fun other ho n r hjob hr => ?_, h.opening, h.busy⟩
  · have hperm : (s.tasks.erase task ++ [{ task with stage }]).map SlotTask.generation |>.Perm
        (s.tasks.map SlotTask.generation) := by
      rw [List.map_append]
      exact List.perm_append_comm.trans
        ((List.perm_cons_erase hmem).map SlotTask.generation).symm
    exact hperm.nodup_iff.mpr h.distinct
  · obtain ⟨old, hmem, -, hserial, -⟩ := hold other ho
    exact hserial ▸ h.serials old hmem
  · obtain ⟨old, hmem, hgeneration, -⟩ := hold other ho
    exact hgeneration ▸ h.bounded old hmem
  · obtain ⟨old, hmem, hgeneration, -⟩ := hold other ho
    exact h.waits old hmem (hgeneration.trans hcurrent)
  · obtain ⟨old, hmem, hgeneration, hserial, hslot, hjobSlot⟩ := hold other ho
    have hlane : s.laneJob old = some n := by
      unfold CoverScheduler.laneJob at hjob ⊢
      rw [hserial, hslot]
      exact hjob
    rw [← hgeneration, ← hjobSlot]
    exact h.held old hmem n r hlane hr

theorem cachedJobs_get (task : SlotTask) (request : CoverSendRequest) (n : Nat) {r : JobRuntime}
    (hr : s.jobs.get n = some r) : ∃ r', (s.cachedJobs task request).get n = some r' ∧
      r'.sentCells = r.sentCells := by
  unfold CoverScheduler.cachedJobs
  split
  · exact ⟨r, hr, rfl⟩
  · rename_i m _
    by_cases hm : n = m
    · subst hm
      refine ⟨_, Jobs.get_update_self _ hr, ?_⟩
      split
      · rfl
      · split <;> rfl
    · exact ⟨r, by rw [Jobs.get_update_ne _ hm, hr], rfl⟩

theorem Sound.cache (h : Sound s) (task : SlotTask) (request : CoverSendRequest) :
    Sound { s with jobs := s.cachedJobs task request } := by
  refine h.withJobs ?_ fun n r hr => cachedJobs_get task request n hr
  unfold CoverScheduler.cachedJobs
  split
  · exact h.placed
  · refine h.placed.update _ fun r hr => ?_
    split
    · exact ⟨rfl, rfl, fun _ hunended => hunended⟩
    · split <;> exact ⟨rfl, rfl, fun _ hunended => hunended⟩

theorem acceptedJobs_placed (h : Sound s) (task : SlotTask) (request : CoverSendRequest) :
    (s.acceptedJobs task request).Placed s.laneJobs := by
  unfold CoverScheduler.acceptedJobs
  cases s.laneJob task with
  | none => exact h.placed
  | some n =>
    dsimp only
    cases hr : s.jobs.get n with
    | none => exact h.placed
    | some r =>
      dsimp only
      cases hlive : r.settled with
      | true => exact h.placed
      | false =>
        rw [if_neg Bool.false_ne_true]
        cases request.source with
        | cancel => exact h.placed.settle_update hr hlive rfl hlive
        | dummy => exact h.placed
        | job kind =>
          dsimp only
          have hsent := h.placed.update n
            (f := fun r => { r with pendingCell := none, sentCells := r.sentCells + 1 })
            fun q _ => ⟨rfl, rfl, fun _ hunended => hunended⟩
          split
          · exact hsent.settle_update (Jobs.get_update_self _ hr) hlive rfl hlive
          · exact hsent

/-- The slot whose lane still has its job is the last of its generation. -/
theorem Sound.accept (h : Sound s) {task : SlotTask} (hmem : task ∈ s.tasks)
    (request : CoverSendRequest) :
    Sound { s with tasks := s.tasks.erase task, jobs := s.acceptedJobs task request } := by
  have hended := h.endTask task
  cases hjob : s.laneJob task with
  | none =>
    have hsame : s.acceptedJobs task request = s.jobs := by
      unfold CoverScheduler.acceptedJobs
      rw [hjob]
    rw [hsame]
    exact hended
  | some n =>
    obtain ⟨r, hr⟩ := Option.isSome_iff_exists.mp (h.placed.known n (laneJob_mem hjob))
    have hcurrent := (h.held task hmem n r hjob hr).1
    refine ⟨⟨hended.distinct, hended.serials, hended.serial⟩, acceptedJobs_placed h task request,
      hended.bounded, hended.waits, fun other ho m q hother _ => ?_, hended.opening, hended.busy⟩
    obtain ⟨q', hq'⟩ := Option.isSome_iff_exists.mp (h.placed.known m (laneJob_mem hother))
    have hgeneration := (h.held other (List.mem_of_mem_erase ho) m q' hother hq').1
    exact absurd (hgeneration.trans hcurrent.symm) (h.erase_ne hmem ho)

/-- The running slot has ended and the timer of what follows it is armed. -/
theorem Sound.advance (h : Sound s) (hother : ∀ other ∈ s.tasks, other.generation ≠ s.generation) {cycle : CycleRuntime} (hcycle : s.cycle = some cycle)
    (deadlineMs : Int) {kind : TimerKind} (hkind : kind ≠ .openBoundary) :
    Sound { s with
      cycle := some { cycle with nextSlotOrdinal := cycle.nextSlotOrdinal + 1 }
      generation := s.generation + 1
      timer := some ⟨deadlineMs, kind⟩ } := by
  have hlanes : s.laneJobs = (cycle.lanes.map (·.job)).reduceOption := laneJobs_of_some hcycle
  refine ⟨⟨h.distinct, h.serials, fun c hc => ?_⟩, ?_, fun other ho => Nat.le_succ_of_le (h.bounded other ho),
    fun other ho hcurrent => ?_, fun other ho n r hjob hr => ?_, fun timer htimer hopening => ?_,
    fun hbusy => h.busy ?_⟩
  · cases hc
    exact h.serial cycle hcycle
  · have hplaced := h.placed
    rw [hlanes] at hplaced
    exact hplaced
  · exact absurd hcurrent (Nat.ne_of_lt (Nat.lt_succ_of_le (h.bounded other ho)))
  · refine absurd (h.held other ho n r ?_ hr).1 (hother other ho)
    unfold CoverScheduler.laneJob at hjob ⊢
    rw [hcycle]
    exact hjob
  · cases htimer
    exact absurd hopening hkind
  · rw [hlanes]
    exact hbusy

/-- A producer's answer: the slot ends without a cell, waits for a dummy, keeps its
cell for later or sends it. -/
theorem cellProduced_sound (h : Sound s) {task : SlotTask} (hmem : task ∈ s.tasks)
    (answer : Except Unit (Option Bytes)) (now : Rat) :
    match produced s.jobs task.slot task.stage answer with
    | .failed => Kept { s with tasks := s.tasks.erase task }
        (finalState ((cellProduced options task answer now).run s))
    | .makeDummy jobId => Kept
        { s with tasks := s.tasks.erase task ++ [{ task with stage := .makeDummy jobId }] }
        (finalState ((cellProduced options task answer now).run s))
    | .request request =>
      if task.generation ≠ s.generation ∨ now > task.slot.deadlineMs + options.maxTimerDriftMs then
        Kept { s with tasks := s.tasks.erase task, jobs := s.cachedJobs task request }
          (finalState ((cellProduced options task answer now).run s))
      else Kept { s with
          calls := s.calls ++ [.laneSend request]
          tasks := s.tasks.erase task ++ [{ task with stage := .sending request }] }
        (finalState ((cellProduced options task answer now).run s)) := by
  have hended := h.endTask task
  have hended' : (endTask task).run s = .ok () { s with tasks := s.tasks.erase task } := rfl
  rw [cellProduced, run_bind_of_ok hended', run_get_bind]
  cases produced s.jobs task.slot task.stage answer with
  | failed => exact degrade_leads now _ (.refl hended)
  | makeDummy jobId => exact .refl (h.stage hmem _ _)
  | request request =>
    dsimp only
    have hcached := hended.cache task request
    by_cases hstale : task.generation ≠ s.generation
    · rw [if_pos hstale, if_pos (.inl hstale)]
      exact .refl hcached
    · rw [if_neg hstale]
      by_cases hlate : now > task.slot.deadlineMs + options.maxTimerDriftMs
      · rw [if_pos hlate, if_pos (.inr hlate)]
        exact degrade_leads now _ (.refl hcached)
      · rw [if_neg hlate, if_neg (not_or.mpr ⟨hstale, hlate⟩)]
        exact .refl (h.stage hmem _ _)

/-- A lane refuses a cell or fails. -/
theorem cellSent_refused (h : Sound s) (task : SlotTask) (request : CoverSendRequest)
    {answer : Except Unit Bool} (hanswer : answer ≠ .ok true) (now : Rat) :
    Kept { s with tasks := s.tasks.erase task, jobs := s.cachedJobs task request }
      (finalState ((cellSent options task request answer now).run s)) := by
  have hcached := @degrade_leads options _ now _ (.refl ((h.endTask task).cache task request))
  cases answer with
  | error e => exact hcached
  | ok accepted =>
    cases accepted with
    | true => exact absurd rfl hanswer
    | false => exact hcached

/-- A lane accepts a cell. -/
theorem cellSent_accepted (h : Sound s) {task : SlotTask} (hmem : task ∈ s.tasks)
    (request : CoverSendRequest) (now : Rat) :
    Sound (finalState ((cellSent options task request (.ok true) now).run s)) ∧
      (finalState ((cellSent options task request (.ok true) now).run s)).tasks = s.tasks.erase task ∧
      (finalState ((cellSent options task request (.ok true) now).run s)).jobs =
        s.acceptedJobs task request := by
  have haccepted := h.accept hmem request
  have hended : (endTask task).run s = .ok () { s with tasks := s.tasks.erase task } := rfl
  have hnoted : (acceptSent task request).run { s with tasks := s.tasks.erase task } =
      .ok () { s with tasks := s.tasks.erase task, jobs := s.acceptedJobs task request } := rfl
  rw [cellSent, run_bind_of_ok hended]
  dsimp only
  rw [run_bind_of_ok hnoted, run_get_bind]
  dsimp only
  cases hcycle : s.cycle with
  | none =>
    rw [hcycle] at haccepted
    exact ⟨haccepted, rfl, rfl⟩
  | some cycle =>
    rw [hcycle] at haccepted
    dsimp only
    by_cases hleft : task.generation ≠ s.generation ∨ cycle.serial ≠ task.cycleSerial
    · rw [if_pos hleft]
      exact ⟨haccepted, rfl, rfl⟩
    · rw [if_neg hleft]
      have hcurrent : task.generation = s.generation := not_not.mp (not_or.mp hleft).1
      have hother : ∀ other ∈ s.tasks.erase task, other.generation ≠ s.generation :=
        fun other ho => hcurrent ▸ h.erase_ne hmem ho
      by_cases hnext : cycle.nextSlotOrdinal + 1 < options.schedule.totalCycleSlots
      · rw [if_pos hnext]
        exact ⟨haccepted.advance hother rfl _ nofun, rfl, rfl⟩
      · rw [if_neg hnext]
        exact ⟨haccepted.advance hother rfl _ nofun, rfl, rfl⟩

end Cover

end P2Party
