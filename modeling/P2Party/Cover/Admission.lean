import P2Party.Cover.Accounting

/-!
# Slots work for admitted jobs only

A job gets on a lane when `openCycle` takes it from the queue and marks it. `Admits` says that
the lanes and the slots name marked jobs only, and that no mark is lost; every method keeps it.

- `Jobs.Admitted`, `Jobs.Follows`: the mark of a job, and changes that leave the marks;
- `Robust`: the properties that most methods keep;
- `Admits`: the queue, the lanes and the slots of a scheduler;
- `step_admits`, `runAll_admits`: kept by events and runs.
-/

namespace P2Party

open Base

namespace Cover

variable {options : CoverSchedulerOptions} {s : CoverScheduler} {jobs jobs' : Jobs} {n m : Nat}

/-! ## The mark of a job -/

/-- The job was given a lane at some time. -/
def Jobs.Admitted (jobs : Jobs) (n : Nat) : Prop := ∃ r, jobs.get n = some r ∧ r.everAdmitted = true

/-- No job is forgotten, no mark is lost, and what joins the queue is a job. -/
structure Jobs.Follows (jobs jobs' : Jobs) : Prop where
  marks : ∀ n, jobs.Admitted n → jobs'.Admitted n
  known : ∀ n, (jobs.get n).isSome = true → (jobs'.get n).isSome = true
  queue : ∀ n ∈ jobs'.queued, n ∈ jobs.queued ∨ (jobs'.get n).isSome = true

/-- A runtime keeps its number when another one is added. -/
theorem Jobs.get_append {r r' : JobRuntime} {queued : List Nat} {byId : OrdMap JsString Nat}
    (hr : jobs.get n = some r) : Jobs.get ⟨jobs.runtimes ++ [r'], queued, byId⟩ n = some r := by
  obtain ⟨hlt, -⟩ := List.getElem?_eq_some_iff.mp hr
  exact (List.getElem?_append_left hlt).trans hr

namespace Jobs.Follows

theorem refl (jobs : Jobs) : Follows jobs jobs := ⟨fun _ h => h, fun _ h => h, fun _ h => .inl h⟩

theorem trans {jobs'' : Jobs} (h : Follows jobs jobs') (h' : Follows jobs' jobs'') :
    Follows jobs jobs'' := by
  refine ⟨fun n hn => h'.marks n (h.marks n hn), fun n hn => h'.known n (h.known n hn), fun n hn => ?_⟩
  rcases h'.queue n hn with hold | hsome
  · rcases h.queue n hold with hold | hsome
    · exact .inl hold
    · exact .inr (h'.known n hsome)
  · exact .inr hsome

/-- The runtimes are the same. -/
theorem of_get (hget : ∀ n, jobs'.get n = jobs.get n)
    (hqueue : ∀ n ∈ jobs'.queued, n ∈ jobs.queued ∨ (jobs.get n).isSome = true) : Follows jobs jobs' := by
  refine ⟨fun n ⟨r, hr, hmark⟩ => ⟨r, (hget n).trans hr, hmark⟩, fun n hn => (hget n).symm ▸ hn, fun n hn => ?_⟩
  rw [hget]
  exact hqueue n hn

theorem update (jobs : Jobs) (m : Nat) {f : JobRuntime → JobRuntime}
    (hf : ∀ r, r.everAdmitted = true → (f r).everAdmitted = true) : Follows jobs (jobs.update m f) := by
  refine ⟨fun n ⟨r, hr, hmark⟩ => ?_, fun n hn => ?_, fun n hn => .inl hn⟩
  · by_cases hm : n = m
    · subst hm
      exact ⟨f r, get_update_self f hr, hf r hmark⟩
    · exact ⟨r, (get_update_ne f hm).trans hr, hmark⟩
  · rw [get_update]
    split
    · exact (Option.isSome_map).trans hn
    · exact hn

theorem removeQueued (jobs : Jobs) (m : Nat) : Follows jobs (jobs.removeQueued m) :=
  of_get (fun _ => rfl) fun _ hn => .inl (List.mem_of_mem_erase hn)

theorem sortQueue (jobs : Jobs) : Follows jobs jobs.sortQueue :=
  of_get (fun _ => rfl) fun _ hn => .inl (jobs.sortQueue_perm.mem_iff.mp hn)

theorem settle (jobs : Jobs) (m : Nat) : Follows jobs (jobs.settle m) := by
  unfold Jobs.settle
  cases jobs.get m with
  | none => exact refl jobs
  | some r =>
    dsimp only
    split
    · exact refl jobs
    · have hsettled := (update jobs m (f := fun r => { r with settled := true, state := .terminal })
        fun _ hr => hr).trans (removeQueued _ m)
      split
      · exact hsettled.trans (of_get (fun _ => rfl) fun _ hn => .inl hn)
      · exact hsettled

theorem requeue (jobs : Jobs) (m : Nat) : Follows jobs (jobs.requeue m) := by
  unfold Jobs.requeue
  cases hm : jobs.get m with
  | none => exact refl jobs
  | some r =>
    dsimp only
    split
    · exact refl jobs
    · have hstate := update jobs m (f := fun r => { r with state := .queued }) fun _ hr => hr
      split
      · exact hstate.trans (sortQueue _)
      · rename_i hnew
        generalize hq : jobs.update m _ = queued at hstate hnew ⊢
        have hsome : (queued.get m).isSome = true := by
          rw [← hq, get_update_self _ hm]
          rfl
        have hjoined : Follows queued { queued with queued := queued.queued ++ [m] } := by
          refine of_get (fun _ => rfl) fun n hn => ?_
          rcases List.mem_append.mp hn with hn | hn
          · exact .inl hn
          · rw [List.mem_singleton.mp hn]
            exact .inr hsome
        exact (hstate.trans hjoined).trans (sortQueue _)

theorem finalize (jobs : Jobs) (m : Nat) : Follows jobs (jobs.finalize m) := by
  unfold Jobs.finalize
  cases jobs.get m with
  | none => exact refl jobs
  | some r =>
    dsimp only
    split
    · exact refl jobs
    · split
      · exact requeue jobs m
      · exact settle jobs m

theorem thenSettle (h : Follows jobs jobs') (m : Nat) : Follows jobs (jobs'.settle m) := h.trans (settle jobs' m)

theorem thenSort (h : Follows jobs jobs') : Follows jobs jobs'.sortQueue := h.trans (sortQueue jobs')

theorem thenUpdate (h : Follows jobs jobs') (m : Nat) {f : JobRuntime → JobRuntime}
    (hf : ∀ r, r.everAdmitted = true → (f r).everAdmitted = true) : Follows jobs (jobs'.update m f) :=
  h.trans (update jobs' m hf)

/-- A row of changes. -/
theorem foldl {α : Type} {g : Jobs → α → Jobs} (hg : ∀ jobs a, Follows jobs (g jobs a)) (as : List α)
    (jobs : Jobs) : Follows jobs (as.foldl g jobs) := by
  induction as generalizing jobs with
  | nil => exact refl jobs
  | cons a as ih => exact (hg jobs a).trans (ih (g jobs a))

/-- A change for every job of a list of lanes. -/
theorem foldlSome {g : Jobs → Nat → Jobs} (hg : ∀ jobs n, Follows jobs (g jobs n))
    (runtimes : List (Option Nat)) (jobs : Jobs) :
    Follows jobs (runtimes.foldl (fun jobs runtime =>
      match runtime with
      | none => jobs
      | some runtime => g jobs runtime) jobs) := by
  refine foldl (fun jobs runtime => ?_) runtimes jobs
  cases runtime with
  | none => exact refl jobs
  | some n => exact hg jobs n

theorem admitSelected (jobs : Jobs) (selected : List (Option Nat)) :
    Follows jobs (jobs.admitSelected selected) :=
  foldlSome (fun jobs n => update jobs n fun _ _ => rfl) selected jobs

theorem dequeueMany (count : Nat) (jobs : Jobs) : Follows jobs (jobs.dequeueMany count).2 := by
  induction count generalizing jobs with
  | zero => exact refl jobs
  | succ count ih =>
    unfold Jobs.dequeueMany Jobs.dequeue
    have hsorted := jobs.sortQueue_perm
    cases hqueued : jobs.sortQueue.queued with
    | nil => exact ih jobs
    | cons m rest =>
      rw [hqueued] at hsorted
      have hrest : Follows jobs { jobs with queued := rest } :=
        of_get (fun _ => rfl) fun n hn => .inl (hsorted.mem_iff.mp (List.mem_cons_of_mem m hn))
      exact hrest.trans (ih { jobs with queued := rest })

end Jobs.Follows

/-- Every selected job is marked. -/
theorem Jobs.Admitted.of_selected {selected : List (Option Nat)} (hmem : n ∈ selected.reduceOption)
    (hknown : (jobs.get n).isSome = true) : (jobs.admitSelected selected).Admitted n := by
  induction selected generalizing jobs with
  | nil => cases hmem
  | cons runtime selected ih =>
    cases runtime with
    | none => exact ih hmem hknown
    | some m =>
      by_cases hm : n = m
      · subst hm
        obtain ⟨r, hr⟩ := Option.isSome_iff_exists.mp hknown
        have hmarked : (jobs.update n fun r => { r with state := .admitted, everAdmitted := true }).Admitted n :=
          ⟨_, get_update_self _ hr, rfl⟩
        exact (Follows.admitSelected _ selected).marks n hmarked
      · refine ih ((List.mem_cons.mp hmem).resolve_left hm) ?_
        rw [get_update_ne _ hm]
        exact hknown

/-! ## What most methods keep -/

/-- `P` reads the jobs, the cycle and the slots only; a cycle may open with jobs of the queue, give its
jobs back, and be closed. -/
structure Robust (options : CoverSchedulerOptions) (P : CoverScheduler → Prop) : Prop where
  aside : ∀ {s : CoverScheduler} {status running generation timer calls}, P s →
    P { s with status, running, generation, timer, calls }
  interrupt : Keeps P interruptCycle
  close : ∀ reason now, Keeps P (closeCurrentCycle options reason now)
  opens : ∀ {s : CoverScheduler} {count : Nat} {selected : List (Option Nat)} {jobs : Jobs}, P s →
    s.jobs.dequeueMany count = (selected, jobs) → ∀ (span : CycleSpan) (keep : LaneRuntime → Bool)
      (serial cycles : Nat) (calls : List Call),
    P { s with
      jobs := jobs.admitSelected selected
      calls
      cycle := some ⟨span, serial, (laneContexts (jobs.admitSelected selected) span selected).filter keep, 0⟩
      cycles }
  requeue : ∀ selected, Keeps P (modify fun s => { s with
    cycle := s.cycle.map CycleRuntime.idle
    jobs := s.jobs.requeueAll selected } : SchedulerM Unit)

namespace Robust

variable {P : CoverScheduler → Prop}

theorem setStatus (h : Robust options P) (status : CoverSchedulerStatus) : Keeps P (setStatus status) :=
  .change fun _ hs => h.aside hs

theorem disarm (h : Robust options P) : Keeps P disarm := .change fun _ hs => h.aside hs

theorem arm (h : Robust options P) (deadlineMs : Int) (kind : TimerKind) : Keeps P (arm deadlineMs kind) :=
  .bind h.disarm fun _ => .change fun _ hs => h.aside hs

/-- Arm, then return. -/
theorem armed {α : Type} {m : SchedulerM Unit} (hm : Keeps P m) (a : α) :
    Keeps P (m >>= fun _ => pure a) := .bind hm fun _ => .pure a

/-- Both branches on the current cycle keep it. -/
theorem onCycle {α : Type} {m : SchedulerM α} {f : CycleRuntime → SchedulerM α} (hnone : Keeps P m)
    (hsome : ∀ cycle, Keeps P (f cycle)) :
    Keeps P (get >>= fun s => match s.cycle with | none => m | some cycle => f cycle) := by
  refine .read fun s hs => ?_
  cases s.cycle with
  | none => exact hnone s hs
  | some cycle => exact hsome cycle s hs

theorem armNextCycle (h : Robust options P) (now : Rat) : Keeps P (armNextCycle options now) := by
  refine .bind (fun _ hs => hs) fun s => .ite ?_ (.pure ())
  exact .bind (.attempt _) fun boundary => h.arm boundary _

theorem suspend (h : Robust options P) (now : Rat) : Keeps P (suspend options now) := by
  refine .bind (fun _ hs => hs) fun s => .ite (.pure _) ?_
  refine .bind h.disarm fun _ => .bind (h.setStatus _) fun _ => onCycle (.pure _) fun cycle => ?_
  refine .bind h.interrupt fun _ => .ite (armed (h.arm _ _) _) ?_
  exact .bind (h.close _ now) fun _ => .pure _

theorem handlerFailed (h : Robust options P) (now : Rat) : Keeps P (handlerFailed options now) :=
  .bind (h.suspend now) fun _ => .pure ()

theorem start (h : Robust options P) (now : Rat) : Keeps P (start options now) := by
  refine .bind (fun _ hs => hs) fun s => .ite (.pure _) ?_
  refine .bind (.change fun _ hs => h.aside hs) fun _ => .bind (h.setStatus _) fun _ => ?_
  refine onCycle ?_ fun cycle => armed (h.arm _ _) _
  exact .bind (.attempt _) fun boundary => armed (h.arm boundary _) _

theorem resume (h : Robust options P) (now : Rat) : Keeps P (resume options now) := by
  have hopen : Keeps P (do
      armOpenBoundary (← attempt (nextCycleBoundary options.schedule now false))
      return true) := .bind (.attempt _) fun boundary => armed (h.arm boundary _) _
  refine .bind (fun _ hs => hs) fun s => .ite (.pure _) ?_
  refine .bind (.change fun _ hs => h.aside hs) fun _ => .bind h.disarm fun _ => ?_
  refine .bind (h.setStatus _) fun _ => onCycle hopen fun cycle => ?_
  exact .ite (armed (h.arm _ _) _) (.bind (h.close _ now) fun _ => hopen)

theorem degrade (h : Robust options P) (now : Rat) : Keeps P (degrade options now) := by
  refine .bind (fun _ hs => hs) fun s => .ite (.pure _) ?_
  refine .bind h.disarm fun _ => .bind (h.setStatus _) fun _ => onCycle (h.armNextCycle now) fun cycle => ?_
  refine .bind h.interrupt fun _ => .ite (h.arm _ _) ?_
  exact .bind (h.close _ now) fun _ => h.armNextCycle now

theorem handleLateTimer (h : Robust options P) (kind : TimerKind) (now : Rat) :
    Keeps P (handleLateTimer options kind now) := by
  have hlate : Keeps P (do
      interruptCycle
      let _ ← closeCurrentCycle options .lateCleanup now
      modify fun s => { s with status := if s.status = .stopped then .stopped else .suspended } :
      SchedulerM Unit) :=
    .bind h.interrupt fun _ => .bind (h.close _ now) fun _ => .change fun _ hs => h.aside hs
  cases kind with
  | slot _ => exact h.degrade now
  | openBoundary => exact hlate
  | cycleBoundary => exact hlate

theorem openCycle (h : Robust options P) (boundaryMs : Int) (generation : Nat) (now : Rat) :
    Keeps P (openCycle options boundaryMs generation now) := by
  refine .read fun s hs => ?_
  -- up to the queue the call may return or throw, and has changed nothing
  split
  · exact hs
  rw [run_attempt_bind]
  split
  case h_2 => exact hs
  rw [run_ensure_bind]
  split
  case isFalse => exact hs
  rcases hselect : s.jobs.dequeueMany options.schedule.coverLanes with ⟨selected, jobs⟩
  refine Keeps.ite ?_ ?_ _ (h.opens hs hselect _ _ _ _ _)
  · exact .bind (h.setStatus _) fun _ => .bind (h.requeue selected) fun _ => h.arm _ _
  · refine .bind (h.setStatus _) fun _ => .read fun s hs => ?_
    cases s.cycle with
    | none => exact hs
    | some cycle => exact h.arm _ _ s hs

/-- What the jobs of a cycle become at its end is left to `P`. -/
theorem handleCycleBoundary (h : Robust options P) (boundaryMs : Int) (now : Rat) {s : CoverScheduler} (hs : P s)
    (hfinal : P (finalState (finalizeCycleJobs.run s))) :
    P (finalState ((handleCycleBoundary options boundaryMs now).run s)) := by
  unfold Cover.handleCycleBoundary
  rw [run_get_bind]
  cases s.cycle with
  | none => exact hs
  | some cycle =>
    dsimp only
    split
    · exact hs
    refine Keeps.bind (h.close _ now) (fun closed => .ite ?_ (.ite (.pure ()) ?_)) _ hfinal
    · exact .bind (.change fun _ hs => h.aside hs) fun _ => h.armNextCycle now
    · exact .recover (h.openCycle _ _ _) (h.handlerFailed now)

end Robust

/-! ## The lanes and the slots -/

/-- Whatever is on a lane or has a slot is a marked job; the jobs of `A` are marked. -/
structure Admits (A : Nat → Prop) (s : CoverScheduler) : Prop where
  marked : ∀ n, A n → s.jobs.Admitted n
  queue : ∀ n ∈ s.jobs.queued, (s.jobs.get n).isSome = true
  lanes : ∀ cycle, s.cycle = some cycle → ∀ lane ∈ cycle.lanes, ∀ n, lane.job = some n → s.jobs.Admitted n
  slots : ∀ task ∈ s.tasks, ∀ jobSlot, task.jobSlot = some jobSlot → s.jobs.Admitted jobSlot.runtime

namespace Admits

variable {A : Nat → Prop}

/-- The jobs follow, and the lanes and slots name no new job. -/
theorem change {s' : CoverScheduler} (h : Admits A s) (hjobs : s.jobs.Follows s'.jobs)
    (hlanes : ∀ cycle', s'.cycle = some cycle' → ∀ lane' ∈ cycle'.lanes, ∀ n, lane'.job = some n →
      ∃ cycle, s.cycle = some cycle ∧ ∃ lane ∈ cycle.lanes, lane.job = some n)
    (htasks : ∀ task' ∈ s'.tasks, ∃ task ∈ s.tasks, task.jobSlot = task'.jobSlot) : Admits A s' := by
  refine ⟨fun n hn => hjobs.marks n (h.marked n hn), fun n hn => ?_, fun cycle' hcycle' lane' hlane' n hn => ?_,
    fun task' htask' jobSlot hslot => ?_⟩
  · rcases hjobs.queue n hn with hold | hsome
    · exact hjobs.known n (h.queue n hold)
    · exact hsome
  · obtain ⟨cycle, hcycle, lane, hlane, hjob⟩ := hlanes cycle' hcycle' lane' hlane' n hn
    exact hjobs.marks n (h.lanes cycle hcycle lane hlane n hjob)
  · obtain ⟨task, htask, hsame⟩ := htasks task' htask'
    exact hjobs.marks _ (h.slots task htask jobSlot (hsame.trans hslot))

/-- Only the jobs, and what `Admits` does not read. -/
theorem withJobs {s' : CoverScheduler} (h : Admits A s) (hjobs : s.jobs.Follows s'.jobs)
    (hcycle : s'.cycle = s.cycle) (htasks : s'.tasks = s.tasks) : Admits A s' := by
  refine h.change hjobs (fun cycle' hcycle' lane' hlane' n hn => ?_) fun task' htask' => ?_
  · exact ⟨cycle', hcycle ▸ hcycle', lane', hlane', hn⟩
  · exact ⟨task', htasks ▸ htask', rfl⟩

/-- The lanes give up their jobs. -/
theorem idle {s' : CoverScheduler} (h : Admits A s) (hjobs : s.jobs.Follows s'.jobs) {cycle : CycleRuntime}
    (hcycle : s'.cycle = some cycle.idle) (htasks : s'.tasks = s.tasks) : Admits A s' := by
  refine h.change hjobs (fun cycle' hcycle' lane' hlane' n hn => ?_) fun task' htask' => ?_
  · rw [hcycle] at hcycle'
    cases hcycle'
    obtain ⟨lane, -, rfl⟩ := List.mem_map.mp hlane'
    cases hn
  · exact ⟨task', htasks ▸ htask', rfl⟩

/-- The cycle is closed. -/
theorem closed {s' : CoverScheduler} (h : Admits A s) (hjobs : s.jobs.Follows s'.jobs)
    (hcycle : s'.cycle = none) (htasks : s'.tasks = s.tasks) : Admits A s' := by
  refine h.change hjobs (fun cycle' hcycle' => ?_) fun task' htask' => ?_
  · rw [hcycle] at hcycle'
    cases hcycle'
  · exact ⟨task', htasks ▸ htask', rfl⟩

/-! ## The methods -/

theorem interruptCycle : Keeps (Admits A) interruptCycle := by
  refine .change fun s h => ?_
  cases hcycle : s.cycle with
  | none => exact h
  | some cycle => exact h.idle (.foldlSome Jobs.Follows.requeue _ s.jobs) rfl rfl

theorem finalizeCycleJobs : Keeps (Admits A) finalizeCycleJobs := by
  refine .change fun s h => ?_
  cases hcycle : s.cycle with
  | none => exact h
  | some cycle => exact h.idle (.foldlSome Jobs.Follows.finalize _ s.jobs) rfl rfl

theorem closeCurrentCycle (reason : CloseReason) (now : Rat) :
    Keeps (Admits A) (closeCurrentCycle options reason now) := by
  refine .read fun s h => ?_
  cases hcycle : s.cycle with
  | none => exact h
  | some cycle => exact h.closed (.refl _) rfl rfl

/-- The queue gives its first jobs to the lanes of a new cycle. -/
theorem opens (h : Admits A s) {selected : List (Option Nat)} {count : Nat}
    (hselect : s.jobs.dequeueMany count = (selected, jobs)) (span : CycleSpan) (keep : LaneRuntime → Bool)
    (serial cycles : Nat) (calls : List Call) :
    Admits A { s with
      jobs := jobs.admitSelected selected
      calls := calls
      cycle := some ⟨span, serial, (laneContexts (jobs.admitSelected selected) span selected).filter keep, 0⟩
      cycles := cycles } := by
  have hdequeue := Jobs.Follows.dequeueMany count s.jobs
  have hmem : ∀ n ∈ (s.jobs.dequeueMany count).1.reduceOption, n ∈ s.jobs.queued :=
    fun n hn => Jobs.mem_dequeueMany count hn
  rw [hselect] at hdequeue hmem
  have hfollows := hdequeue.trans (.admitSelected jobs selected)
  refine ⟨fun n hn => hfollows.marks n (h.marked n hn), fun n hn => ?_, fun cycle hcycle lane hlane n hn => ?_,
    fun task htask jobSlot hslot => hfollows.marks _ (h.slots task htask jobSlot hslot)⟩
  · rcases hfollows.queue n hn with hold | hsome
    · exact hfollows.known n (h.queue n hold)
    · exact hsome
  · cases hcycle
    have hselected : some n ∈ selected := by
      rw [← laneContexts_jobs (jobs.admitSelected selected) span selected]
      exact List.mem_map.mpr ⟨lane, List.mem_of_mem_filter hlane, hn⟩
    have hreduce := List.reduceOption_mem_iff.mpr hselected
    exact .of_selected hreduce (hdequeue.known n (h.queue n (hmem n hreduce)))

theorem robust (options : CoverSchedulerOptions) : Robust options (Admits A) where
  aside h := h.withJobs (.refl _) rfl rfl
  interrupt := interruptCycle
  close := closeCurrentCycle
  opens h hselect := h.opens hselect
  requeue selected := by
    refine .change fun s h => ?_
    have hjobs := Jobs.Follows.foldlSome Jobs.Follows.requeue selected s.jobs
    cases hcycle : s.cycle with
    | none => exact h.closed hjobs rfl rfl
    | some cycle => exact h.idle hjobs rfl rfl

theorem settleAll : Keeps (Admits A) settleAll := by
  refine .change fun s h => h.withJobs ?_ rfl rfl
  exact .foldl (fun jobs n => (Jobs.Follows.removeQueued jobs n).trans (.settle _ n)) _ s.jobs

theorem stop (now : Rat) : Keeps (Admits A) (stop options now) := by
  refine .bind (fun _ h => h) fun s => .ite (.pure _) ?_
  refine .bind (.change fun _ h => h.withJobs (.refl _) rfl rfl) fun _ => .bind (robust options).disarm fun _ => ?_
  refine .bind ((robust options).setStatus _) fun _ => .bind settleAll fun _ => Robust.onCycle (.pure _) fun cycle => ?_
  refine .bind (.change fun s h => ?_) fun _ => .ite (Robust.armed ((robust options).arm _ _) _) ?_
  · cases hcycle : s.cycle with
    | none => exact h.closed (.refl _) rfl rfl
    | some cycle => exact h.idle (.refl _) rfl rfl
  · exact .bind (closeCurrentCycle _ now) fun _ => .pure _

/-- A slot starts for the job of its lane. -/
theorem sendSlot (slot : CoverSlot) (generation : Nat) (now : Rat) :
    Keeps (Admits A) (sendSlot options slot generation now) := by
  refine .read fun s h => ?_
  cases hcycle : s.cycle with
  | none => exact h
  | some cycle =>
    dsimp only
    split
    · exact h
    cases hlane : cycle.lanes.find? fun lane => lane.laneIndex = slot.laneIndex with
    | none => exact (robust options).degrade now s h
    | some lane =>
      refine ⟨h.marked, h.queue, h.lanes, fun task htask jobSlot hslot => ?_⟩
      rcases List.mem_append.mp htask with htask | htask
      · exact h.slots task htask jobSlot hslot
      · rw [List.mem_singleton.mp htask] at hslot
        change Cover.jobSlot s.jobs lane.job = some jobSlot at hslot
        unfold Cover.jobSlot at hslot
        obtain ⟨n, hjob, hslot⟩ := Option.bind_eq_some_iff.mp hslot
        obtain ⟨r, -, rfl⟩ := Option.map_eq_some_iff.mp hslot
        exact h.lanes cycle hcycle lane (List.mem_of_find?_eq_some hlane) n hjob

theorem timerFired (firedAt : Rat) : Keeps (Admits A) (timerFired options firedAt) := by
  refine .bind (fun _ h => h) fun s => ?_
  cases s.timer with
  | none => exact .pure ()
  | some timer =>
    refine .ite (.pure ()) (.bind (.change fun _ h => h.withJobs (.refl _) rfl rfl) fun _ => ?_)
    refine .ite ((robust options).handleLateTimer _ _) ?_
    cases timer.kind with
    | openBoundary => exact .recover ((robust options).openCycle _ _ _) ((robust options).handlerFailed _)
    | cycleBoundary => exact fun s h => (robust options).handleCycleBoundary _ _ h (finalizeCycleJobs s h)
    | slot slot => exact sendSlot _ _ _

theorem endTask (task : SlotTask) : Keeps (Admits A) (endTask task) := by
  refine .change fun s h => h.change (.refl _) (fun cycle hcycle lane hlane n hn => ⟨cycle, hcycle, lane, hlane, hn⟩) ?_
  exact fun other hother => ⟨other, List.mem_of_mem_erase hother, rfl⟩

theorem cacheUnsent (task : SlotTask) (request : CoverSendRequest) :
    Keeps (Admits A) (cacheUnsent task request) := by
  refine .change fun s h => h.withJobs ?_ rfl rfl
  show s.jobs.Follows (s.cachedJobs task request)
  unfold CoverScheduler.cachedJobs
  split
  · exact .refl _
  · refine .update _ _ fun r hr => ?_
    split
    · exact hr
    · split <;> exact hr

theorem acceptSent (task : SlotTask) (request : CoverSendRequest) :
    Keeps (Admits A) (acceptSent task request) := by
  refine .change fun s h => h.withJobs ?_ rfl rfl
  show s.jobs.Follows (s.acceptedJobs task request)
  unfold CoverScheduler.acceptedJobs
  split
  · exact .refl _
  split
  · exact .refl _
  split
  · exact .refl _
  split
  · refine .thenSettle ?_ _
    exact .update _ _ fun _ hr => hr
  · dsimp only
    split
    · refine .thenSettle ?_ _
      refine .thenUpdate ?_ _ fun _ hr => hr
      exact .update _ _ fun _ hr => hr
    · exact .update _ _ fun _ hr => hr
  · exact .refl _

/-- A task in the list goes to its next stage. -/
theorem cellProduced (h : Admits A s) {task : SlotTask} (hmem : task ∈ s.tasks)
    (answer : Except Unit (Option Bytes)) (now : Rat) :
    Admits A (finalState ((cellProduced options task answer now).run s)) := by
  have hended : Admits A { s with tasks := s.tasks.erase task } := endTask task s h
  have hstage : ∀ (stage : Stage) (calls : List Call),
      Admits A { s with calls, tasks := s.tasks.erase task ++ [{ task with stage }] } := by
    intro stage calls
    refine h.change (.refl _) (fun cycle hcycle lane hlane n hn => ⟨cycle, hcycle, lane, hlane, hn⟩) ?_
    intro other hother
    rcases List.mem_append.mp hother with hother | hother
    · exact ⟨other, List.mem_of_mem_erase hother, rfl⟩
    · rw [List.mem_singleton.mp hother]
      exact ⟨task, hmem, rfl⟩
  unfold Cover.cellProduced Cover.endTask
  rw [run_modify_bind, run_get_bind]
  split
  · exact (robust options).degrade now _ hended
  · exact hstage _ _
  · split
    · exact cacheUnsent task _ _ hended
    · split
      · exact Keeps.bind (cacheUnsent task _) (fun _ => (robust options).degrade now) _ hended
      · exact hstage _ _

theorem cellSent (task : SlotTask) (request : CoverSendRequest) (answer : Except Unit Bool) (now : Rat) :
    Keeps (Admits A) (cellSent options task request answer now) := by
  refine .bind (endTask task) fun _ => ?_
  have hrefused : Keeps (Admits A) (Cover.cacheUnsent task request >>= fun _ => Cover.degrade options now) :=
    .bind (cacheUnsent task request) fun _ => (robust options).degrade now
  cases answer with
  | error e => exact hrefused
  | ok accepted =>
    cases accepted with
    | false => exact hrefused
    | true =>
      refine .bind (acceptSent task request) fun _ => .read fun s h => ?_
      cases hcycle : s.cycle with
      | none => exact h
      | some cycle =>
        dsimp only
        split
        · exact h
        have hnext : Admits A { s with cycle := some { cycle with nextSlotOrdinal := cycle.nextSlotOrdinal + 1 } } := by
          refine h.change (.refl _) (fun cycle' hcycle' lane hlane n hn => ?_) fun other hother => ⟨other, hother, rfl⟩
          cases hcycle'
          exact ⟨cycle, hcycle, lane, hlane, hn⟩
        exact Keeps.ite ((robust options).arm _ _) ((robust options).arm _ _) _ hnext

/-! ## The job calls -/

/-- A new job is in the queue and has no mark. -/
theorem enqueue (job : CoverJob) : Keeps (Admits A) (enqueue options job) := by
  refine .read fun s h => ?_
  rw [run_ensure_bind]
  split
  case isFalse => exact h
  rw [run_ensure_bind]
  split
  case isFalse => exact h
  rw [run_attempt_bind]
  split
  case h_2 => exact h
  rw [run_ensure_bind]
  split
  case isFalse => exact h
  rw [run_attempt_bind]
  split
  case h_2 => exact h
  refine h.withJobs (.thenSort ⟨?_, fun n hn => ?_, fun n hn => ?_⟩) rfl rfl
  · rintro n ⟨r, hr, hmark⟩
    exact ⟨r, Jobs.get_append hr, hmark⟩
  · obtain ⟨r, hr⟩ := Option.isSome_iff_exists.mp hn
    exact Option.isSome_iff_exists.mpr ⟨r, Jobs.get_append hr⟩
  · rcases List.mem_append.mp hn with hn | hn
    · exact .inl hn
    · rw [List.mem_singleton.mp hn]
      exact .inr (Option.isSome_iff_exists.mpr ⟨_, (Jobs.get_concat _ _ _).trans (if_pos rfl)⟩)

theorem cancel (jobId : JsString) : Keeps (Admits A) (cancel jobId) := by
  refine .read fun s h => ?_
  cases s.jobs.live jobId with
  | none => exact h
  | some found =>
    obtain ⟨n, r⟩ := found
    dsimp only
    split
    · refine h.withJobs ?_ rfl rfl
      exact .thenSettle (.removeQueued _ _) _
    · rw [run_ensure_bind]
      split
      · refine h.withJobs ?_ rfl rfl
        exact .thenSort (.update _ _ fun _ hr => hr)
      · exact h

theorem complete (jobId : JsString) : Keeps (Admits A) (complete jobId) := by
  refine .read fun s h => ?_
  cases s.jobs.live jobId with
  | none => exact h
  | some found =>
    obtain ⟨n, r⟩ := found
    refine h.withJobs ?_ rfl rfl
    show s.jobs.Follows (((s.jobs.removeQueued n).update n _).settle n)
    refine .thenSettle ?_ _
    exact .thenUpdate (.removeQueued _ _) _ fun _ hr => hr

end Admits

/-! ## Runs -/

theorem step_admits {A : Nat → Prop} (event : Event) (h : Admits A s) : Admits A (step options event s) := by
  cases event with
  | control control =>
    cases control with
    | start now => exact (Admits.robust options).start now s h
    | suspend now => exact (Admits.robust options).suspend now s h
    | resume now => exact (Admits.robust options).resume now s h
    | stop now => exact Admits.stop now s h
    | timer firedAt => exact Admits.timerFired firedAt s h
  | enqueue job => exact Admits.enqueue job s h
  | cancel jobId => exact Admits.cancel jobId s h
  | complete jobId => exact Admits.complete jobId s h
  | produced task answer now =>
    unfold step
    dsimp only
    split
    · rename_i hmem
      exact h.cellProduced hmem.1 answer now
    · exact h
  | sent task answer now =>
    unfold step
    dsimp only
    split
    · split
      · exact Admits.cellSent _ _ _ _ s h
      · exact h
    · exact h

theorem runAll_admits {A : Nat → Prop} (events : List Event) (h : Admits A s) :
    Admits A (runAll options events s) := by
  induction events generalizing s with
  | nil => exact h
  | cons event events ih => exact ih (step_admits event h)

theorem fresh_admits : Admits (fun _ => False) fresh where
  marked _ h := h.elim
  queue _ h := absurd h List.not_mem_nil
  lanes _ h := by cases h
  slots _ h := absurd h List.not_mem_nil

/-- A mark is never lost. -/
theorem admitted_later (h : Admits (fun _ => False) s) (events : List Event) (hn : s.jobs.Admitted n) :
    (runAll options events s).jobs.Admitted n :=
  (runAll_admits events (⟨fun _ hm => hm, h.queue, h.lanes, h.slots⟩ : Admits s.jobs.Admitted s)).marked n hn

end Cover

end P2Party
