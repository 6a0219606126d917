import P2Party.Cover.Cancellation

/-!
# When jobs are settled

A job is settled by the transport's answer to its last cell, by a call, or at the end of a
cycle on whose lanes it is. Nothing else settles it: `Field φ n b` says what a mark of a job
is, and the methods that do not settle keep it.

- `Field`: a mark of a job;
- `timerFired_field`: the timer settles jobs on the lanes only, at the end of a cycle;
- `Uncancelled`, `Unfinished`: no job is to be cancelled, an unsettled one has cells to send;
- `step_jobs`: what a step makes of the jobs, and what it keeps of the above.
-/

namespace P2Party

open Base

namespace Cover

variable {options : CoverSchedulerOptions} {s : CoverScheduler} {jobs jobs' : Jobs} {n m : Nat}
  {b : Option Bool}

/-! ## A field of a job -/

/-- A field of the runtimes that the queue and the lanes do not touch. -/
structure Unmoved (φ : JobRuntime → Bool) : Prop where
  moved : ∀ r state everAdmitted, φ { r with state, everAdmitted } = φ r

theorem unmoved_settled : Unmoved (·.settled) := ⟨fun _ _ _ => rfl⟩

theorem unmoved_cancelRequested : Unmoved (·.cancelRequested) := ⟨fun _ _ _ => rfl⟩

/-- The field of a job; `none` if there is no such job. -/
def Jobs.field (jobs : Jobs) (φ : JobRuntime → Bool) (n : Nat) : Option Bool := (jobs.get n).map φ

variable {φ : JobRuntime → Bool}

namespace Jobs

theorem field_of_get {r : JobRuntime} (hr : jobs.get n = some r) : jobs.field φ n = some (φ r) := by
  unfold field
  rw [hr]
  rfl

theorem field_update {f : JobRuntime → JobRuntime} (hf : ∀ r, φ (f r) = φ r) (m : Nat) :
    (jobs.update m f).field φ n = jobs.field φ n := by
  unfold field
  rw [get_update]
  split
  · rw [Option.map_map]
    exact congrArg (Option.map · _) (funext hf)
  · rfl

theorem field_requeue (hφ : Unmoved φ) (m : Nat) : (jobs.requeue m).field φ n = jobs.field φ n := by
  unfold requeue
  cases jobs.get m with
  | none => rfl
  | some r =>
    dsimp only
    split
    · rfl
    · have hqueued : (jobs.update m fun r => { r with state := .queued }).field φ n = jobs.field φ n := by
        refine field_update ?_ m
        intro r
        exact hφ.moved r .queued r.everAdmitted
      split <;> exact hqueued

theorem field_settle (h : n ≠ m ∨ ∀ r, φ { r with settled := true, state := .terminal } = φ r) :
    (jobs.settle m).field φ n = jobs.field φ n := by
  unfold settle
  cases jobs.get m with
  | none => rfl
  | some r =>
    dsimp only
    split
    · rfl
    · have hother : (jobs.update m fun r => { r with settled := true, state := .terminal }).field φ n =
          jobs.field φ n := by
        rcases h with hne | hsame
        · unfold field
          rw [get_update_ne _ hne]
        · exact field_update hsame m
      split <;> exact hother

theorem field_finalize (hφ : Unmoved φ)
    (h : n ≠ m ∨ ∀ r, φ { r with settled := true, state := .terminal } = φ r) :
    (jobs.finalize m).field φ n = jobs.field φ n := by
  unfold finalize
  cases jobs.get m with
  | none => rfl
  | some r =>
    dsimp only
    split
    · rfl
    · split
      · exact field_requeue hφ m
      · exact field_settle h

/-- A row of changes that leave the field. -/
theorem field_foldl {g : Jobs → Nat → Jobs} (runtimes : List (Option Nat))
    (hg : ∀ m ∈ runtimes.reduceOption, ∀ jobs, (g jobs m).field φ n = jobs.field φ n) (jobs : Jobs) :
    (runtimes.foldl (fun jobs runtime =>
      match runtime with
      | none => jobs
      | some runtime => g jobs runtime) jobs).field φ n = jobs.field φ n := by
  induction runtimes generalizing jobs with
  | nil => rfl
  | cons runtime runtimes ih =>
    cases runtime with
    | none => exact ih hg jobs
    | some m =>
      have hrest := ih (fun k hk => hg k (List.mem_cons_of_mem m hk)) (g jobs m)
      exact hrest.trans (hg m List.mem_cons_self jobs)

theorem field_dequeueMany (count : Nat) (jobs : Jobs) :
    (jobs.dequeueMany count).2.field φ n = jobs.field φ n := by
  have hruntimes := (dequeueMany_runtimes count jobs).1
  exact congrArg (fun runtimes => Option.map φ runtimes[n]?) hruntimes

end Jobs

/-! ## The methods -/

/-- The field of a job is `b`. -/
def Field (φ : JobRuntime → Bool) (n : Nat) (b : Option Bool) (s : CoverScheduler) : Prop :=
  s.jobs.field φ n = b

namespace Field

theorem interruptCycle (hφ : Unmoved φ) : Keeps (Field φ n b) interruptCycle := by
  refine .change fun s h => ?_
  cases s.cycle with
  | none => exact h
  | some cycle => exact (Jobs.field_foldl _ (fun m _ _ => Jobs.field_requeue hφ m) s.jobs).trans h

theorem closeCurrentCycle (reason : CloseReason) (now : Rat) :
    Keeps (Field φ n b) (closeCurrentCycle options reason now) := by
  refine .read fun s h => ?_
  cases s.cycle with
  | none => exact h
  | some cycle => exact h

theorem robust (options : CoverSchedulerOptions) (hφ : Unmoved φ) : Robust options (Field φ n b) where
  aside h := h
  interrupt := interruptCycle hφ
  close := closeCurrentCycle
  opens := by
    intro s count selected jobs h hselect _ _ _ _ _
    have hdequeue := @Jobs.field_dequeueMany n φ count s.jobs
    rw [hselect] at hdequeue
    refine (Jobs.field_foldl selected (fun m _ jobs => ?_) jobs).trans (hdequeue.trans h)
    exact Jobs.field_update (fun r => hφ.moved r .admitted true) m
  requeue selected :=
    .change fun s h => (Jobs.field_foldl selected (fun m _ _ => Jobs.field_requeue hφ m) s.jobs).trans h

theorem sendSlot (hφ : Unmoved φ) (slot : CoverSlot) (generation : Nat) (now : Rat) :
    Keeps (Field φ n b) (sendSlot options slot generation now) := by
  refine .read fun s h => ?_
  cases s.cycle with
  | none => exact h
  | some cycle =>
    dsimp only
    split
    · exact h
    cases cycle.lanes.find? fun lane => lane.laneIndex = slot.laneIndex with
    | none => exact (robust options hφ).degrade now s h
    | some lane => exact h

/-- The end of a cycle settles jobs on its lanes only. -/
theorem finalizeCycleJobs (hφ : Unmoved φ) (h : Field φ n b s)
    (hlane : n ∉ s.laneJobs ∨ ∀ r, φ { r with settled := true, state := .terminal } = φ r) :
    Field φ n b (finalState (finalizeCycleJobs.run s)) := by
  rcases s with ⟨_, _, _, _, cycle, _, jobs, _, _⟩
  cases cycle with
  | none => exact h
  | some cycle =>
    refine (Jobs.field_foldl _ (fun m hm _ => Jobs.field_finalize hφ (hlane.imp_left fun hlane => ?_)) jobs).trans h
    rintro rfl
    exact hlane hm

theorem cacheUnsent (hcache : ∀ r cell, φ { r with pendingCell := cell } = φ r ∧ φ { r with pendingCancelCell := cell } = φ r)
    (task : SlotTask) (request : CoverSendRequest) : Keeps (Field φ n b) (cacheUnsent task request) := by
  refine .change fun s h => ?_
  show (s.cachedJobs task request).field φ n = b
  unfold CoverScheduler.cachedJobs
  split
  · exact h
  · refine (Jobs.field_update (fun r => ?_) _).trans h
    split
    · rfl
    · split
      · exact (hcache r _).2
      · exact (hcache r _).1
      · rfl

/-- The answer of a producer settles nothing. -/
theorem cellProduced (hφ : Unmoved φ)
    (hcache : ∀ r cell, φ { r with pendingCell := cell } = φ r ∧ φ { r with pendingCancelCell := cell } = φ r)
    (task : SlotTask) (answer : Except Unit (Option Bytes)) (now : Rat) :
    Keeps (Field φ n b) (cellProduced options task answer now) := by
  refine .bind (.change fun _ h => h) fun _ => .bind (fun _ h => h) fun s => ?_
  cases produced s.jobs task.slot task.stage answer with
  | failed => exact (robust options hφ).degrade now
  | makeDummy jobId => exact .change fun _ h => h
  | request request =>
    refine .ite (cacheUnsent hcache task request) (.ite ?_ (.change fun _ h => h))
    exact .bind (cacheUnsent hcache task request) fun _ => (robust options hφ).degrade now

/-- Neither does a lane that refuses a cell. -/
theorem cellSent_refused (hφ : Unmoved φ)
    (hcache : ∀ r cell, φ { r with pendingCell := cell } = φ r ∧ φ { r with pendingCancelCell := cell } = φ r)
    (task : SlotTask) (request : CoverSendRequest) {answer : Except Unit Bool} (hanswer : answer ≠ .ok true)
    (now : Rat) : Keeps (Field φ n b) (cellSent options task request answer now) := by
  refine .bind (.change fun _ h => h) fun _ => ?_
  have hrefused : Keeps (Field φ n b) (Cover.cacheUnsent task request >>= fun _ => Cover.degrade options now) :=
    .bind (cacheUnsent hcache task request) fun _ => (robust options hφ).degrade now
  cases answer with
  | error e => exact hrefused
  | ok accepted =>
    cases accepted with
    | true => exact absurd rfl hanswer
    | false => exact hrefused

end Field

/-- The timer settles jobs on the lanes only, at the end of a cycle. -/
theorem timerFired_field (hφ : Unmoved φ) (firedAt : Rat) (h : Field φ n b s)
    (hlane : ∀ timer, s.timer = some timer → timer.kind = .cycleBoundary →
      n ∉ s.laneJobs ∨ ∀ r, φ { r with settled := true, state := .terminal } = φ r) :
    Field φ n b (finalState ((timerFired options firedAt).run s)) := by
  have hrobust : Robust options (Field φ n b) := Field.robust options hφ
  unfold timerFired
  rw [run_get_bind]
  cases htimer : s.timer with
  | none => exact h
  | some timer =>
    dsimp only
    by_cases hearly : firedAt < timer.deadlineMs
    · rw [if_pos hearly]
      exact h
    rw [if_neg hearly]
    show Field φ n b (finalState (EStateM.run (ite _ _ _) { s with timer := none }))
    have hfired : Field φ n b { s with timer := none } := h
    by_cases hlate : firedAt > timer.deadlineMs + options.maxTimerDriftMs
    · rw [if_pos hlate]
      exact hrobust.handleLateTimer _ _ _ hfired
    rw [if_neg hlate]
    cases hkind : timer.kind with
    | openBoundary => exact Keeps.recover (hrobust.openCycle _ _ _) (hrobust.handlerFailed _) _ hfired
    | cycleBoundary =>
      exact hrobust.handleCycleBoundary _ _ hfired
        (Field.finalizeCycleJobs hφ hfired (hlane timer htimer hkind))
    | slot slot => exact Field.sendSlot hφ _ _ _ _ hfired

/-! ## No cancellation -/

/-- No job is to be cancelled, and no slot is about a CANCEL cell. -/
structure Uncancelled (s : CoverScheduler) : Prop where
  jobs : ∀ n, s.jobs.field (·.cancelRequested) n ≠ some true
  slots : ∀ task ∈ s.tasks, (∀ n job, task.stage ≠ .cancelCell n job) ∧
    ∀ request, task.stage.request? = some request → request.source ≠ .cancel

theorem field_accepted (task : SlotTask) (request : CoverSendRequest) (n : Nat) :
    (s.acceptedJobs task request).field (·.cancelRequested) n = s.jobs.field (·.cancelRequested) n := by
  have hupdate : ∀ (jobs : Jobs) (m : Nat) (f : JobRuntime → JobRuntime),
      (∀ r, (f r).cancelRequested = r.cancelRequested) →
      (jobs.update m f).field (·.cancelRequested) n = jobs.field (·.cancelRequested) n :=
    fun jobs m f hf => Jobs.field_update hf m
  have hsettle : ∀ (jobs : Jobs) (m : Nat),
      (jobs.settle m).field (·.cancelRequested) n = jobs.field (·.cancelRequested) n :=
    fun jobs m => Jobs.field_settle (.inr fun _ => rfl)
  unfold CoverScheduler.acceptedJobs
  split
  · rfl
  split
  · rfl
  split
  · rfl
  split
  · rw [hsettle, hupdate]
    intro r
    rfl
  · dsimp only
    split
    · rw [hsettle, hupdate, hupdate]
      · intro r
        rfl
      · intro r
        rfl
    · rw [hupdate]
      intro r
      rfl
  · rfl

/-- A slot of a job that is not to be cancelled does not ask for a CANCEL cell. -/
theorem requestForSlot_uncancelled (hjobs : ∀ n, jobs.field (·.cancelRequested) n ≠ some true)
    (laneJob : Option Nat) (slot : CoverSlot) :
    (∀ n job, requestForSlot jobs laneJob slot ≠ .cancelCell n job) ∧
      ∀ request, (requestForSlot jobs laneJob slot).request? = some request → request.source ≠ .cancel := by
  have hdummy : ∀ jobId, (∀ n job, Stage.makeDummy jobId ≠ .cancelCell n job) ∧
      ∀ request, (Stage.makeDummy jobId).request? = some request → request.source ≠ .cancel := by
    intro jobId
    constructor
    · intro n job h
      cases h
    · intro request h
      cases h
  unfold requestForSlot
  cases laneJob with
  | none => exact hdummy none
  | some n =>
    dsimp only
    cases hr : jobs.get n with
    | none => exact hdummy none
    | some r =>
      dsimp only
      have hclear : r.cancelRequested = false := by
        have hn := hjobs n
        rw [Jobs.field_of_get hr] at hn
        exact (Bool.not_eq_true _).mp fun h => hn (congrArg some h)
      split
      · exact hdummy _
      rw [if_neg (by rw [hclear]; exact fun h => Bool.false_ne_true h.1)]
      split
      · constructor
        · intro m job h
          split at h <;> cases h
        · intro request hrequest
          split at hrequest
          · cases hrequest
            intro h
            cases h
          · cases hrequest
      · exact hdummy _

namespace Uncancelled

/-- The jobs keep the field and the slots are the same. -/
theorem of_field {s' : CoverScheduler} (h : Uncancelled s)
    (hjobs : ∀ n, s'.jobs.field (·.cancelRequested) n = s.jobs.field (·.cancelRequested) n)
    (htasks : ∀ task' ∈ s'.tasks, (∃ task ∈ s.tasks, task.stage = task'.stage) ∨
      (∀ n job, task'.stage ≠ .cancelCell n job) ∧
        ∀ request, task'.stage.request? = some request → request.source ≠ .cancel) : Uncancelled s' := by
  refine ⟨fun n => (hjobs n).symm ▸ h.jobs n, fun task' htask' => ?_⟩
  rcases htasks task' htask' with ⟨task, htask, hstage⟩ | hclear
  · rw [← hstage]
    exact h.slots task htask
  · exact hclear

theorem timerFired (h : Uncancelled s) (hsound : Sound s) (firedAt : Rat) :
    Uncancelled (finalState ((timerFired options firedAt).run s)) := by
  have hjobs : ∀ n, (finalState ((Cover.timerFired options firedAt).run s)).jobs.field (·.cancelRequested) n =
      s.jobs.field (·.cancelRequested) n := fun n =>
    timerFired_field unmoved_cancelRequested firedAt rfl fun _ _ _ => .inr fun _ => rfl
  rcases @timerFired_leads options _ firedAt hsound with hkept | hstarted
  · refine h.of_field hjobs fun task htask => .inl ⟨task, ?_, rfl⟩
    exact hkept.tasks ▸ htask
  · obtain ⟨generation, slot, serial, job, -, htasks⟩ := hstarted.tasks
    refine h.of_field hjobs fun task htask => ?_
    rw [htasks] at htask
    rcases List.mem_append.mp htask with htask | htask
    · exact .inl ⟨task, htask, rfl⟩
    · rw [List.mem_singleton.mp htask]
      refine .inr (requestForSlot_uncancelled (fun n => ?_) job slot)
      rw [hstarted.jobs]
      exact h.jobs n

theorem control (h : Uncancelled s) (hsound : Sound s) {m : SchedulerM Bool}
    (hleads : Leads (Kept s) (Kept s) m) (hfield : ∀ n b, Keeps (Field (·.cancelRequested) n b) m) :
    Uncancelled (finalState (m.run s)) :=
  h.of_field (fun n => hfield n _ s rfl) fun task htask => .inl ⟨task, (hleads s (.refl hsound)).tasks ▸ htask, rfl⟩

/-- The request that a slot gets is no CANCEL cell. -/
theorem produced_source (h : Uncancelled s) {task : SlotTask} (hmem : task ∈ s.tasks)
    {answer : Except Unit (Option Bytes)} {request : CoverSendRequest}
    (hproduced : produced s.jobs task.slot task.stage answer = .request request) : request.source ≠ .cancel := by
  obtain ⟨hcancel, hsource⟩ := h.slots task hmem
  unfold produced at hproduced
  split at hproduced
  · rename_i ready _ hstage
    cases hproduced
    refine hsource _ ?_
    rw [hstage]
    rfl
  · rename_i n job _ hstage
    exact absurd hstage (hcancel n job)
  · cases hproduced
    exact nofun
  · cases hproduced
  · cases hproduced
    exact nofun
  · cases hproduced

theorem cellProduced (h : Uncancelled s) (hsound : Sound s) {task : SlotTask} (hmem : task ∈ s.tasks)
    (answer : Except Unit (Option Bytes)) (now : Rat) :
    Uncancelled (finalState ((cellProduced options task answer now).run s)) := by
  have hjobs : ∀ n, (finalState ((Cover.cellProduced options task answer now).run s)).jobs.field (·.cancelRequested) n =
      s.jobs.field (·.cancelRequested) n := fun n =>
    Field.cellProduced unmoved_cancelRequested (fun _ _ => ⟨rfl, rfl⟩) task answer now s rfl
  have herased : ∀ other ∈ s.tasks.erase task, ∃ old ∈ s.tasks, old.stage = other.stage :=
    fun other hother => ⟨other, List.mem_of_mem_erase hother, rfl⟩
  have hsteps := @cellProduced_sound options _ hsound _ hmem answer now
  split at hsteps
  · refine h.of_field hjobs fun other hother => ?_
    rw [hsteps.tasks] at hother
    exact .inl (herased other hother)
  · refine h.of_field hjobs fun other hother => ?_
    rw [hsteps.tasks] at hother
    rcases List.mem_append.mp hother with hother | hother
    · exact .inl (herased other hother)
    · rw [List.mem_singleton.mp hother]
      exact .inr ⟨nofun, nofun⟩
  · rename_i request hproduced
    split at hsteps
    · refine h.of_field hjobs fun other hother => ?_
      rw [hsteps.tasks] at hother
      exact .inl (herased other hother)
    · refine h.of_field hjobs fun other hother => ?_
      rw [hsteps.tasks] at hother
      rcases List.mem_append.mp hother with hother | hother
      · exact .inl (herased other hother)
      · rw [List.mem_singleton.mp hother]
        refine .inr ⟨nofun, fun request' hrequest' => ?_⟩
        cases hrequest'
        exact h.produced_source hmem hproduced

theorem cellSent (h : Uncancelled s) (hsound : Sound s) {task : SlotTask} (hmem : task ∈ s.tasks)
    (request : CoverSendRequest) (answer : Except Unit Bool) (now : Rat) :
    Uncancelled (finalState ((cellSent options task request answer now).run s)) := by
  have herased : ∀ other ∈ s.tasks.erase task, ∃ old ∈ s.tasks, old.stage = other.stage :=
    fun other hother => ⟨other, List.mem_of_mem_erase hother, rfl⟩
  by_cases hanswer : answer = .ok true
  · subst hanswer
    obtain ⟨-, htasks, hjobs⟩ := @cellSent_accepted options _ hsound _ hmem request now
    refine h.of_field (fun n => ?_) fun other hother => .inl (herased other (htasks ▸ hother))
    rw [hjobs]
    exact field_accepted task request n
  · have hkept := @cellSent_refused options _ hsound task request answer hanswer now
    refine h.of_field (fun n => ?_) fun other hother => .inl (herased other ?_)
    swap
    · rw [hkept.tasks] at hother
      exact hother
    exact Field.cellSent_refused unmoved_cancelRequested (fun _ _ => ⟨rfl, rfl⟩) task request hanswer now s rfl

end Uncancelled

/-! ## The cells that are left -/

/-- An unsettled job has not sent all its cells. -/
def Unfinished (jobs : Jobs) : Prop :=
  ∀ n r, jobs.get n = some r → r.settled = false → (r.sentCells : Int) < r.job.declaredCellCount

theorem Unfinished.carry (h : Unfinished jobs) (hcarries : jobs.Carries jobs') : Unfinished jobs' := by
  intro n r' hr' hlive
  obtain ⟨r, hr, hunsettled, hcarried⟩ := hcarries.live hr' hlive
  rw [hcarried.job, hcarried.sentCells]
  exact h n r hr hunsettled

/-- A job whose last cell was accepted is settled. -/
theorem Unfinished.accept (h : Unfinished s.jobs) (task : SlotTask) (request : CoverSendRequest) :
    Unfinished (s.acceptedJobs task request) := by
  unfold CoverScheduler.acceptedJobs
  split
  · exact h
  · rename_i m _
    split
    · exact h
    · rename_i q hq
      split
      · exact h
      · rename_i hlive
        have hlive : q.settled = false := Bool.not_eq_true _ ▸ hlive
        have hbefore := h m q hq hlive
        split
        · intro n r hr hunsettled
          rw [Jobs.get_settle_update hq hlive] at hr
          split at hr
          · cases hr
            cases hunsettled
          · exact h n r hr hunsettled
        · dsimp only
          split
          · intro n r hr hunsettled
            rw [Jobs.get_settle_update (Jobs.get_update_self _ hq) hlive] at hr
            split at hr
            · cases hr
              cases hunsettled
            · rename_i hn
              rw [Jobs.get_update_ne _ hn] at hr
              exact h n r hr hunsettled
          · rename_i hmore
            intro n r hr hunsettled
            by_cases hn : n = m
            · subst hn
              rw [Jobs.get_update_self _ hq] at hr
              cases hr
              show ((q.sentCells + 1 : Nat) : Int) < q.job.declaredCellCount
              push_cast
              omega
            · rw [Jobs.get_update_ne _ hn] at hr
              exact h n r hr hunsettled
        · exact h

/-! ## What a step leaves of a job -/

/-- The same jobs, whatever became of them. -/
def Jobs.Lasts (jobs jobs' : Jobs) : Prop := ∀ n, (jobs'.get n).map (·.job) = (jobs.get n).map (·.job)

namespace Jobs.Lasts

theorem refl (jobs : Jobs) : Lasts jobs jobs := fun _ => rfl

theorem trans {jobs'' : Jobs} (h : Lasts jobs jobs') (h' : Lasts jobs' jobs'') : Lasts jobs jobs'' :=
  fun n => (h' n).trans (h n)

theorem update (jobs : Jobs) (m : Nat) {f : JobRuntime → JobRuntime} (hf : ∀ r, (f r).job = r.job) :
    Lasts jobs (jobs.update m f) := by
  intro n
  rw [get_update]
  split
  · rw [Option.map_map]
    exact congrArg (Option.map · _) (funext hf)
  · rfl

theorem settle (jobs : Jobs) (m : Nat) : Lasts jobs (jobs.settle m) := by
  unfold Jobs.settle
  cases jobs.get m with
  | none => exact refl jobs
  | some r =>
    dsimp only
    split
    · exact refl jobs
    · have hsettled : Lasts jobs (jobs.update m fun r => { r with settled := true, state := .terminal }) := by
        refine update jobs m ?_
        intro r
        rfl
      split <;> exact hsettled

theorem of_carries (h : Jobs.Carries jobs jobs') : Lasts jobs jobs' := by
  intro n
  cases hr : jobs.get n with
  | none =>
    cases hr' : jobs'.get n with
    | none => rfl
    | some r' =>
      obtain ⟨r, hr₁, -⟩ := h.origin hr'
      rw [hr] at hr₁
      cases hr₁
  | some r =>
    obtain ⟨r', hr', hcarried⟩ := h.get hr
    rw [hr']
    exact congrArg some hcarried.job

theorem cached (s : CoverScheduler) (task : SlotTask) (request : CoverSendRequest) :
    Lasts s.jobs (s.cachedJobs task request) := by
  unfold CoverScheduler.cachedJobs
  split
  · exact refl _
  · refine update _ _ fun r => ?_
    split
    · rfl
    · split <;> rfl

theorem accepted (s : CoverScheduler) (task : SlotTask) (request : CoverSendRequest) :
    Lasts s.jobs (s.acceptedJobs task request) := by
  unfold CoverScheduler.acceptedJobs
  split
  · exact refl _
  rename_i m _
  split
  · exact refl _
  split
  · exact refl _
  split
  · refine trans ?_ (settle _ _)
    refine update _ _ ?_
    intro r
    rfl
  · have hsent : Lasts s.jobs
        (s.jobs.update m fun r => { r with pendingCell := none, sentCells := r.sentCells + 1 }) := by
      refine update _ _ ?_
      intro r
      rfl
    dsimp only
    split
    · refine trans ?_ (settle _ _)
      refine hsent.trans ?_
      refine update _ _ ?_
      intro r
      rfl
    · exact hsent
  · exact refl _

/-- As many as before. -/
theorem length (h : Lasts jobs jobs') : jobs'.runtimes.length = jobs.runtimes.length := by
  have hsome : ∀ n, n < jobs'.runtimes.length ↔ n < jobs.runtimes.length := by
    intro n
    have hn := congrArg Option.isSome (h n)
    rw [Option.isSome_map, Option.isSome_map] at hn
    unfold Jobs.get at hn
    simpa [List.getElem?_eq_some_iff, Option.isSome_iff_exists] using Bool.eq_iff_iff.mp hn
  exact le_antisymm (Nat.not_lt.mp fun hlt => Nat.lt_irrefl _ ((hsome _).mp hlt))
    (Nat.not_lt.mp fun hlt => Nat.lt_irrefl _ ((hsome _).mpr hlt))

theorem origin (h : Lasts jobs jobs') {r' : JobRuntime} (hr' : jobs'.get n = some r') :
    ∃ r, jobs.get n = some r ∧ r.job = r'.job := by
  have hn := h n
  rw [hr'] at hn
  exact Option.map_eq_some_iff.mp hn.symm

end Jobs.Lasts

/-! ## What a step makes of the jobs -/

/-- `enqueue` adds a job that waits for its first cycle, or throws. -/
theorem enqueue_added (job : CoverJob) : finalState ((enqueue options job).run s) = s ∨
    ∃ r : JobRuntime, r.job = job ∧ r.settled = false ∧ r.cancelRequested = false ∧
      (r.sentCells : Int) < job.declaredCellCount ∧
      (finalState ((enqueue options job).run s)).tasks = s.tasks ∧
      (finalState ((enqueue options job).run s)).jobs.runtimes = s.jobs.runtimes ++ [r] := by
  unfold enqueue
  rw [run_get_bind, run_ensure_bind]
  split
  case isFalse => exact .inl rfl
  rw [run_ensure_bind]
  split
  case isFalse => exact .inl rfl
  rw [run_attempt_bind]
  split
  case h_2 => exact .inl rfl
  rw [run_ensure_bind]
  split
  case isFalse => exact .inl rfl
  rename_i hfits
  rw [run_attempt_bind]
  split
  case h_2 => exact .inl rfl
  refine .inr ⟨_, rfl, rfl, rfl, ?_, rfl, rfl⟩
  have hpositive : ¬ job.declaredCellCount < 1 := fun h => hfits (.inl h)
  show ((0 : Nat) : Int) < job.declaredCellCount
  omega

theorem control_carries (h : Sound s) (control : Control) : s.jobs.Carries (step options (.control control) s).jobs := by
  cases control with
  | start now => exact (start_leads now s (.refl h)).jobs
  | suspend now => exact (suspend_leads now s (.refl h)).jobs
  | resume now => exact (resume_leads now s (.refl h)).jobs
  | stop now => exact (stop_leads now s (.refl h)).jobs
  | timer firedAt =>
    rcases @timerFired_leads options _ firedAt h with hkept | hstarted
    · exact hkept.jobs
    · exact .of_get fun n => congrArg (·.get n) hstarted.jobs

/-- A step takes the jobs on, caches a cell, accepts one, or adds a job. -/
theorem step_jobs (h : Sound s) (event : Event) :
    s.jobs.Carries (step options event s).jobs ∨
    (∃ task request, (s.cachedJobs task request).Carries (step options event s).jobs) ∨
    (∃ task request, (step options event s).jobs = s.acceptedJobs task request) ∨
    ∃ job, event = .enqueue job ∧ ∃ r : JobRuntime, r.job = job ∧ r.settled = false ∧ r.cancelRequested = false ∧
      (r.sentCells : Int) < job.declaredCellCount ∧
      (step options event s).jobs.runtimes = s.jobs.runtimes ++ [r] := by
  cases event with
  | control control => exact .inl (control_carries h control)
  | enqueue job =>
    rcases @enqueue_added options s job with hsame | ⟨r, hjob, hlive, hclear, hcells, -, hruntimes⟩
    · exact .inl (.of_get fun n => congrArg (fun s : CoverScheduler => s.jobs.get n) hsame)
    · exact .inr (.inr (.inr ⟨job, rfl, r, hjob, hlive, hclear, hcells, hruntimes⟩))
  | cancel jobId => exact .inl (cancel_kept h jobId).jobs
  | complete jobId => exact .inl (complete_kept h jobId).jobs
  | produced task answer now =>
    unfold step
    dsimp only
    split
    case isFalse => exact .inl (.refl _)
    case isTrue hmem =>
      have hsteps := @cellProduced_sound options _ h _ hmem.1 answer now
      split at hsteps
      · exact .inl hsteps.jobs
      · exact .inl hsteps.jobs
      · split at hsteps
        · exact .inr (.inl ⟨_, _, hsteps.jobs⟩)
        · exact .inl hsteps.jobs
  | sent task answer now =>
    unfold step
    dsimp only
    split
    · rename_i request _
      split
      case isFalse => exact .inl (.refl _)
      case isTrue hmem =>
        by_cases hanswer : answer = .ok true
        · subst hanswer
          exact .inr (.inr (.inl ⟨_, _, (@cellSent_accepted options _ h _ hmem request now).2.2⟩))
        · exact .inr (.inl ⟨_, _, (cellSent_refused h task request hanswer now).jobs⟩)
    · exact .inl (.refl _)

/-- What an `enqueue` added is not among the old jobs. -/
theorem get_added {r q : JobRuntime} (hruntimes : jobs'.runtimes = jobs.runtimes ++ [r]) (hq : jobs'.get n = some q) :
    (n = jobs.runtimes.length ∧ q = r) ∨ jobs.get n = some q := by
  unfold Jobs.get at hq
  rw [hruntimes, Jobs.get_concat] at hq
  split at hq
  · rename_i hn
    exact .inl ⟨hn, (Option.some.inj hq).symm⟩
  · exact .inr hq

/-- A cached cell does not end a job. -/
theorem Unfinished.cache (h : Unfinished s.jobs) (task : SlotTask) (request : CoverSendRequest) :
    Unfinished (s.cachedJobs task request) := by
  unfold CoverScheduler.cachedJobs
  split
  · exact h
  · rename_i m _
    intro n r' hr' hlive
    by_cases hn : n = m
    · subst hn
      rw [Jobs.get_update, if_pos rfl] at hr'
      obtain ⟨r, hr, rfl⟩ := Option.map_eq_some_iff.mp hr'
      have hbefore := h n r hr
      split at hlive
      · rename_i hsettled
        rw [hsettled] at hlive
        cases hlive
      · rename_i hunsettled
        rw [if_neg hunsettled]
        have hbefore := hbefore ((Bool.not_eq_true _).mp hunsettled)
        split <;> exact hbefore
    · rw [Jobs.get_update_ne _ hn] at hr'
      exact h n r' hr' hlive

theorem step_unfinished (h : Sound s) (hunfinished : Unfinished s.jobs) (event : Event) :
    Unfinished (step options event s).jobs := by
  rcases @step_jobs options s h event with
    hcarries | ⟨task, request, hcarries⟩ | ⟨task, request, hjobs⟩ | ⟨job, -, r, rfl, -, -, hcells, hruntimes⟩
  · exact hunfinished.carry hcarries
  · exact (hunfinished.cache task request).carry hcarries
  · rw [hjobs]
    exact hunfinished.accept task request
  · intro n q hq hlive
    rcases get_added hruntimes hq with ⟨-, rfl⟩ | hq
    · exact hcells
    · exact hunfinished n q hq hlive

/-- A step that enqueues nothing leaves the jobs. -/
theorem step_lasts (h : Sound s) {event : Event} (hevent : ∀ job, event ≠ .enqueue job) :
    s.jobs.Lasts (step options event s).jobs := by
  rcases @step_jobs options s h event with
    hcarries | ⟨task, request, hcarries⟩ | ⟨task, request, hjobs⟩ | ⟨job, henqueue, -⟩
  · exact .of_carries hcarries
  · exact (Jobs.Lasts.cached s task request).trans (.of_carries hcarries)
  · rw [hjobs]
    exact .accepted s task request
  · exact absurd henqueue (hevent job)

/-- The events that end no job from outside. -/
def Event.Plain : Event → Prop
  | .control (.stop _) | .cancel _ | .complete _ => False
  | _ => True

theorem step_uncancelled (h : Sound s) (huncancelled : Uncancelled s) {event : Event} (hplain : event.Plain) :
    Uncancelled (step options event s) := by
  have hfield : ∀ n b, Robust options (Field (·.cancelRequested) n b) :=
    fun _ _ => Field.robust options unmoved_cancelRequested
  cases event with
  | control control =>
    cases control with
    | start now => exact huncancelled.control h (start_leads now) fun n b => (hfield n b).start now
    | suspend now => exact huncancelled.control h (suspend_leads now) fun n b => (hfield n b).suspend now
    | resume now => exact huncancelled.control h (resume_leads now) fun n b => (hfield n b).resume now
    | stop now => exact hplain.elim
    | timer firedAt => exact huncancelled.timerFired h firedAt
  | enqueue job =>
    show Uncancelled (finalState ((enqueue options job).run s))
    rcases @enqueue_added options s job with hsame | ⟨r, -, -, hclear, -, htasks, hruntimes⟩
    · rw [hsame]
      exact huncancelled
    · refine ⟨fun n hn => ?_, fun task htask => huncancelled.slots task (htasks ▸ htask)⟩
      obtain ⟨q, hq, hcancel⟩ := Option.map_eq_some_iff.mp hn
      rcases get_added hruntimes hq with ⟨-, rfl⟩ | hq
      · rw [hclear] at hcancel
        cases hcancel
      · exact huncancelled.jobs n (Option.map_eq_some_iff.mpr ⟨q, hq, hcancel⟩)
  | cancel jobId => exact hplain.elim
  | complete jobId => exact hplain.elim
  | produced task answer now =>
    unfold step
    dsimp only
    split
    case isFalse => exact huncancelled
    case isTrue hmem => exact huncancelled.cellProduced h hmem.1 answer now
  | sent task answer now =>
    unfold step
    dsimp only
    split
    · rename_i request _
      split
      case isFalse => exact huncancelled
      case isTrue hmem => exact huncancelled.cellSent h hmem request answer now
    · exact huncancelled

/-- A slot that waits for `nextCell` waits until its answer. -/
theorem step_waits (h : Sound s) {event : Event} {task : SlotTask} (htask : task ∈ s.tasks) {job : CoverJob}
    (hstage : task.stage = .nextCell n job) (hother : ∀ answer now, event ≠ .produced task answer now) :
    task ∈ (step options event s).tasks := by
  have hkeeps : ∀ s', Kept s s' → task ∈ s'.tasks := by
    intro s' hkept
    rw [hkept.tasks]
    exact htask
  cases event with
  | control control =>
    cases control with
    | start now => exact hkeeps _ (start_leads now s (.refl h))
    | suspend now => exact hkeeps _ (suspend_leads now s (.refl h))
    | resume now => exact hkeeps _ (resume_leads now s (.refl h))
    | stop now => exact hkeeps _ (stop_leads now s (.refl h))
    | timer firedAt =>
      show task ∈ (finalState ((timerFired options firedAt).run s)).tasks
      rcases @timerFired_leads options _ firedAt h with hkept | hstarted
      · exact hkeeps _ hkept
      · obtain ⟨generation, slot, serial, laneJob, -, htasks⟩ := hstarted.tasks
        rw [htasks]
        exact List.mem_append_left _ htask
  | enqueue added =>
    show task ∈ (finalState ((enqueue options added).run s)).tasks
    rw [(enqueue_sound h added).2.1]
    exact htask
  | cancel jobId => exact hkeeps _ (cancel_kept h jobId)
  | complete jobId => exact hkeeps _ (complete_kept h jobId)
  | produced other answer now =>
    have hne : task ≠ other := by
      rintro rfl
      exact hother answer now rfl
    have hleft : task ∈ s.tasks.erase other := (List.mem_erase_of_ne hne).mpr htask
    unfold step
    dsimp only
    split
    case isFalse => exact htask
    case isTrue hmem =>
      have hsteps := @cellProduced_sound options _ h _ hmem.1 answer now
      split at hsteps
      · rw [hsteps.tasks]
        exact hleft
      · rw [hsteps.tasks]
        exact List.mem_append_left _ hleft
      · split at hsteps
        · rw [hsteps.tasks]
          exact hleft
        · rw [hsteps.tasks]
          exact List.mem_append_left _ hleft
  | sent other answer now =>
    unfold step
    dsimp only
    split
    · rename_i request hsending
      have hne : task ≠ other := by
        rintro rfl
        rw [hstage] at hsending
        cases hsending
      have hleft : task ∈ s.tasks.erase other := (List.mem_erase_of_ne hne).mpr htask
      split
      case isFalse => exact htask
      case isTrue hmem =>
        by_cases hanswer : answer = .ok true
        · subst hanswer
          rw [(@cellSent_accepted options _ h _ hmem request now).2.1]
          exact hleft
        · rw [(@cellSent_refused options _ h other request answer hanswer now).tasks]
          exact hleft
    · exact htask

/-- An accepted cell that is no CANCEL cell settles a job only with its last cell. -/
theorem accepted_settled {task : SlotTask} {request : CoverSendRequest} (hsource : request.source ≠ .cancel)
    {r r' : JobRuntime} (hr : s.jobs.get n = some r) (hlive : r.settled = false)
    (hr' : (s.acceptedJobs task request).get n = some r') (hsettled : r'.settled = true) :
    r'.sentCells = r.sentCells + 1 ∧ (r'.sentCells : Int) = r'.job.declaredCellCount := by
  have hsame : s.jobs.get n ≠ some r' := by
    rw [hr]
    rintro ⟨⟩
    rw [hlive] at hsettled
    cases hsettled
  unfold CoverScheduler.acceptedJobs at hr'
  split at hr'
  · exact absurd hr' hsame
  rename_i m _
  split at hr'
  · exact absurd hr' hsame
  rename_i q hq
  split at hr'
  · exact absurd hr' hsame
  rename_i hopen
  have hopen : q.settled = false := (Bool.not_eq_true _).mp hopen
  split at hr'
  · rename_i heq
    exact absurd heq hsource
  · dsimp only at hr'
    split at hr'
    · rename_i hlast
      rw [Jobs.get_settle_update (Jobs.get_update_self _ hq) hopen] at hr'
      split at hr'
      · rename_i hn
        subst hn
        rw [hr] at hq
        cases hq
        cases hr'
        refine ⟨rfl, ?_⟩
        show ((r.sentCells + 1 : Nat) : Int) = r.job.declaredCellCount
        push_cast
        exact hlast
      · rename_i hn
        rw [Jobs.get_update_ne _ hn] at hr'
        exact absurd hr' hsame
    · by_cases hn : n = m
      · subst hn
        rw [Jobs.get_update_self _ hq] at hr'
        cases hr'
        rw [show q.settled = true from hsettled] at hopen
        cases hopen
      · rw [Jobs.get_update_ne _ hn] at hr'
        exact absurd hr' hsame
  · exact absurd hr' hsame

/-- The answer of a lane settles a job only with its last cell. -/
theorem sent_settled (h : Sound s) (huncancelled : Uncancelled s) {task : SlotTask} {answer : Except Unit Bool}
    {now : Rat} {r r' : JobRuntime} (hr : s.jobs.get n = some r) (hlive : r.settled = false)
    (hr' : (step options (.sent task answer now) s).jobs.get n = some r') (hsettled : r'.settled = true) :
    r'.sentCells = r.sentCells + 1 ∧ (r'.sentCells : Int) = r'.job.declaredCellCount := by
  have hsame : s.jobs.get n ≠ some r' := by
    rw [hr]
    rintro ⟨⟩
    rw [hlive] at hsettled
    cases hsettled
  unfold step at hr'
  dsimp only at hr'
  split at hr'
  · rename_i request hstage
    split at hr'
    case isFalse => exact absurd hr' hsame
    case isTrue hmem =>
      by_cases hanswer : answer = .ok true
      · subst hanswer
        rw [(@cellSent_accepted options _ h _ hmem request now).2.2] at hr'
        exact accepted_settled ((huncancelled.slots task hmem).2 request (by rw [hstage]; rfl)) hr hlive hr' hsettled
      · have hfield : Field (·.settled) n (some false) (finalState ((cellSent options task request answer now).run s)) := by
          refine Field.cellSent_refused unmoved_settled (fun _ _ => ⟨rfl, rfl⟩) task request hanswer now s ?_
          exact (Jobs.field_of_get hr).trans (congrArg some hlive)
        have hfield := (Jobs.field_of_get hr').symm.trans hfield
        rw [hsettled] at hfield
        cases hfield
  · exact absurd hr' hsame

end Cover

end P2Party
