import P2Party.Cover.FullCycles
import P2Party.Cover.SlotTasks

/-!
# The cells of a job are sent once and in order

A `Ledger` is a scheduler with two books: the cells `nextCell` produced for each job, with
the index it was asked for, and the cells of each job that the transport accepted, with
their `jobCellIndex`. `Accounted` compares the books with the scheduler: every job is in
one place, the accepted cells of a job are the first ones produced, in order, as many as
`sentCells` says, and a produced cell that was not accepted is not lost.

An answer that comes after its slot was interrupted may break the books. `Event.InTurn`
says when it does not:

- `Booked`: the books of a scheduler, kept by each thing that can happen to a slot;
- `Ledger.step_booked`, `Ledger.run_booked`: they are kept in whole runs;
- `late_acceptance`: a cell that the transport accepts after `suspend` is sent again.
-/

namespace P2Party

open Base

namespace Cover

/-! ## The books -/

/-- The cell of a request, if it is a cell of a job. -/
def CoverSendRequest.jobCell? (request : CoverSendRequest) : Option Bytes :=
  match request.source with
  | .job _ => some request.cell
  | _ => none

/-- The request that a slot has. -/
def Stage.request? : Stage → Option CoverSendRequest
  | .ready request => some request
  | .sending request => some request
  | _ => none

/-- The cell of a job that a slot has. -/
def Stage.jobCell? (stage : Stage) : Option Bytes := stage.request?.bind (·.jobCell?)

/-- A cell with the index it is for. -/
abbrev Entry := Option Nat × Bytes

/-- The entries of every job. -/
abbrev Book := Nat → List Entry

/-- A scheduler with the cells produced and accepted so far. -/
structure Ledger where
  scheduler : CoverScheduler
  produced : Book
  accepted : Book

/-- The cell that an answer of `nextCell` brings, with its job and the index asked for. -/
def Event.production (event : Event) (s : CoverScheduler) : Option (Nat × Entry) :=
  match event with
  | .produced task (.ok (some cell)) _ =>
    if task ∈ s.tasks then
      match task.stage, task.jobSlot with
      | .nextCell _ _, some jobSlot => some (jobSlot.runtime, some jobSlot.jobCellIndex, cell)
      | _, _ => none
    else none
  | _ => none

/-- The cell of a job that the transport accepts, with its job and its index. -/
def Event.acceptance (event : Event) (s : CoverScheduler) : Option (Nat × Entry) :=
  match event with
  | .sent task (.ok true) _ =>
    if task ∈ s.tasks then
      match task.stage, task.jobSlot with
      | .sending request, some jobSlot =>
        request.jobCell?.map fun cell => (jobSlot.runtime, request.jobCellIndex, cell)
      | _, _ => none
    else none
  | _ => none

/-- Write an entry. -/
def Book.write (book : Book) : Option (Nat × Entry) → Book
  | none => book
  | some (n, entry) => Function.update book n (book n ++ [entry])

namespace Ledger

variable (options : CoverSchedulerOptions)

/-- Nothing produced yet. -/
def new (s : CoverScheduler) : Ledger := ⟨s, fun _ => [], fun _ => []⟩

/-- An event at a scheduler, with its entries. -/
def step (event : Event) (ledger : Ledger) : Ledger where
  scheduler := Cover.step options event ledger.scheduler
  produced := ledger.produced.write (event.production ledger.scheduler)
  accepted := ledger.accepted.write (event.acceptance ledger.scheduler)

/-- A run with its entries. -/
def run (events : List Event) (ledger : Ledger) : Ledger :=
  events.foldl (fun ledger event => ledger.step options event) ledger

end Ledger

/-! ## What the books should say -/

/-- The cell is in the runtime of the job or with a slot that asked for that index. -/
def CellHeld (jobs : Jobs) (tasks : List SlotTask) (n index : Nat) (cell : Bytes) : Prop :=
  (∃ r, jobs.get n = some r ∧ r.pendingCell = some cell) ∨
    ∃ task ∈ tasks, task.jobSlot = some ⟨n, index⟩ ∧ task.stage.jobCell? = some cell

/-- In how many places a job is: settled, the queue, the lanes. A lane sends dummies for
a job that is settled; it is no place of it. -/
def CoverScheduler.places (s : CoverScheduler) (n : Nat) (r : JobRuntime) : Nat :=
  s.jobs.queued.count n + if r.settled then 1 else s.laneJobs.count n

/-- The scheduler agrees with its books. -/
structure Accounted (ledger : Ledger) : Prop where
  places : ∀ n r, ledger.scheduler.jobs.get n = some r → ledger.scheduler.places n r = 1
  inOrder : ∀ n r, ledger.scheduler.jobs.get n = some r →
    (ledger.accepted n).map Prod.fst = (List.range r.sentCells).map some
  once : ∀ n, ledger.accepted n <+: ledger.produced n
  kept : ∀ n r, ledger.scheduler.jobs.get n = some r → r.settled = false →
    ledger.produced n = ledger.accepted n ∨ ∃ cell,
      CellHeld ledger.scheduler.jobs ledger.scheduler.tasks n r.sentCells cell ∧
      ledger.produced n = ledger.accepted n ++ [(some r.sentCells, cell)]

/-! ## Answers in turn -/

/-- The job of a slot is at the cell the slot asked for; or it is settled, and no newer
job has its id. -/
def CoverScheduler.TakesBack (s : CoverScheduler) (jobSlot : CoverJobSlot) : Prop :=
  ∀ r, s.jobs.get jobSlot.runtime = some r →
    if r.settled then s.jobs.byId.get r.job.id = none else jobSlot.jobCellIndex = r.sentCells

/-- The job of a slot waits for the cell the slot asked for and has no other; or it is
settled. -/
def CoverScheduler.Lacks (s : CoverScheduler) (jobSlot : CoverJobSlot) : Prop :=
  ∀ r, s.jobs.get jobSlot.runtime = some r → r.settled = false →
    jobSlot.jobCellIndex = r.sentCells ∧
      ∀ cell, ¬ CellHeld s.jobs s.tasks jobSlot.runtime r.sentCells cell

/-- The job of a slot is on its lane and not settled. -/
def CoverScheduler.Counts (s : CoverScheduler) (task : SlotTask) (jobSlot : CoverJobSlot) : Prop :=
  s.laneJob task = some jobSlot.runtime ∧
    ∀ r, s.jobs.get jobSlot.runtime = some r → r.settled = false

/-- An answer about a cell of a job comes while the scheduler can still book it: a cell
is produced for the index the job is at and only once, a cell that is not sent goes back
to the job it is of, and a cell is accepted for a job that is still on the lane. -/
def Event.InTurn (options : CoverSchedulerOptions) (event : Event) (s : CoverScheduler) : Prop :=
  match event with
  | .produced task answer now => ∀ jobSlot, task.jobSlot = some jobSlot →
    match task.stage, answer with
    | .nextCell _ _, .ok (some _) => s.Lacks jobSlot ∧
      (task.generation ≠ s.generation ∨ now > task.slot.deadlineMs + options.maxTimerDriftMs →
        s.TakesBack jobSlot)
    | .ready request, _ => request.jobCell?.isSome = true →
      (task.generation ≠ s.generation ∨ now > task.slot.deadlineMs + options.maxTimerDriftMs →
        s.TakesBack jobSlot)
    | _, _ => True
  | .sent task answer _ => ∀ jobSlot, task.jobSlot = some jobSlot →
    match task.stage with
    | .sending request => request.jobCell?.isSome = true →
      match answer with
      | .ok true => s.Counts task jobSlot
      | _ => s.TakesBack jobSlot
    | _ => True
  | _ => True

/-! ## Books that agree with the jobs and the slots -/

/-- What a slot knows of its job. -/
structure SlotTask.Ok (jobs : Jobs) (task : SlotTask) : Prop where
  slot : ∀ jobSlot, task.jobSlot = some jobSlot →
    ∃ r, jobs.get jobSlot.runtime = some r ∧ jobSlot.jobCellIndex ≤ r.sentCells
  asked : ∀ n job, task.stage = .nextCell n job →
    ∃ index r, task.jobSlot = some ⟨n, index⟩ ∧ jobs.get n = some r ∧ r.job = job
  bears : ∀ request, task.stage.request? = some request → request.jobCell?.isSome = true →
    ∃ jobSlot r, task.jobSlot = some jobSlot ∧ jobs.get jobSlot.runtime = some r ∧
      request.jobId = some r.job.id ∧
      (r.settled = false → request.jobCellIndex = some jobSlot.jobCellIndex)

/-- The books agree with the jobs and the slots. -/
structure Booked (jobs : Jobs) (tasks : List SlotTask) (produced accepted : Book) : Prop where
  slots : ∀ task ∈ tasks, task.Ok jobs
  fresh : ∀ n, jobs.get n = none → produced n = [] ∧ accepted n = []
  inOrder : ∀ n r, jobs.get n = some r →
    (accepted n).map Prod.fst = (List.range r.sentCells).map some
  once : ∀ n, accepted n <+: produced n
  kept : ∀ n r, jobs.get n = some r → r.settled = false → produced n = accepted n ∨
    ∃ cell, CellHeld jobs tasks n r.sentCells cell ∧
      produced n = accepted n ++ [(some r.sentCells, cell)]
  only : ∀ n r cell, jobs.get n = some r → r.settled = false →
    CellHeld jobs tasks n r.sentCells cell → produced n = accepted n ++ [(some r.sentCells, cell)]

/-- The jobs go on: none is forgotten, renamed or reopened, and none sends less. -/
def Jobs.GoesOn (jobs jobs' : Jobs) : Prop := ∀ n r, jobs.get n = some r →
  ∃ r', jobs'.get n = some r' ∧ r'.job = r.job ∧ r.sentCells ≤ r'.sentCells ∧
    (r'.settled = false → r.settled = false)

theorem SlotTask.Ok.goesOn {jobs jobs' : Jobs} {task : SlotTask} (h : task.Ok jobs)
    (hjobs : jobs.GoesOn jobs') : task.Ok jobs' := by
  refine ⟨fun jobSlot hslot => ?_, fun n job hstage => ?_, fun request hrequest hcell => ?_⟩
  · obtain ⟨r, hr, hindex⟩ := h.slot jobSlot hslot
    obtain ⟨r', hr', -, hsent, -⟩ := hjobs _ r hr
    exact ⟨r', hr', Nat.le_trans hindex hsent⟩
  · obtain ⟨index, r, hslot, hr, hjob⟩ := h.asked n job hstage
    obtain ⟨r', hr', hjob', -⟩ := hjobs _ r hr
    exact ⟨index, r', hslot, hr', hjob'.trans hjob⟩
  · obtain ⟨jobSlot, r, hslot, hr, hid, hindex⟩ := h.bears request hrequest hcell
    obtain ⟨r', hr', hjob', -, hopen⟩ := hjobs _ r hr
    exact ⟨jobSlot, r', hslot, hr', by rw [hjob', hid], fun hlive => hindex (hopen hlive)⟩

theorem Jobs.Carries.goesOn {jobs jobs' : Jobs} (h : jobs.Carries jobs') : jobs.GoesOn jobs' := by
  intro n r hr
  obtain ⟨r', hr', hcarried⟩ := h.get hr
  refine ⟨r', hr', hcarried.job, Nat.le_of_eq hcarried.sentCells.symm, fun hlive => ?_⟩
  cases hsettled : r.settled with
  | false => rfl
  | true =>
    rw [hcarried.settled hsettled, hsettled] at hlive
    cases hlive

/-- One job goes on. -/
theorem Jobs.GoesOn.of_one {jobs jobs' : Jobs} {n : Nat} {r r' : JobRuntime} (hr : jobs.get n = some r)
    (hget : ∀ m, jobs'.get m = if m = n then some r' else jobs.get m) (hjob : r'.job = r.job)
    (hsent : r.sentCells ≤ r'.sentCells) (hlive : r.settled = false) : jobs.GoesOn jobs' := by
  intro m q hq
  rw [hget]
  by_cases hm : m = n
  · subst hm
    rw [hr] at hq
    cases hq
    rw [if_pos rfl]
    exact ⟨r', rfl, hjob, hsent, fun _ => hlive⟩
  · rw [if_neg hm]
    exact ⟨q, hq, rfl, Nat.le_refl _, fun h => h⟩

namespace Booked

variable {jobs jobs' : Jobs} {tasks tasks' : List SlotTask} {produced accepted : Book} {n : Nat}
  {r : JobRuntime} {task : SlotTask}

/-- No cell was sent for, and the slots have the same cells. -/
theorem change (h : Booked jobs tasks produced accepted) (hjobs : jobs.Carries jobs')
    (htasks : ∀ task ∈ tasks', task.Ok jobs')
    (hheld : ∀ n r' cell, jobs'.get n = some r' → r'.settled = false →
      (CellHeld jobs' tasks' n r'.sentCells cell ↔ CellHeld jobs tasks n r'.sentCells cell)) :
    Booked jobs' tasks' produced accepted := by
  refine ⟨htasks, fun n hn => h.fresh n ?_, fun n r' hr' => ?_, h.once, fun n r' hr' hlive => ?_,
    fun n r' cell hr' hlive hcell => ?_⟩
  · cases hr : jobs.get n with
    | none => rfl
    | some r =>
      obtain ⟨r', hr', -⟩ := hjobs.get hr
      rw [hn] at hr'
      cases hr'
  · obtain ⟨r, hr, hcarried⟩ := hjobs.origin hr'
    rw [hcarried.sentCells]
    exact h.inOrder n r hr
  · obtain ⟨r, hr, hlive', hcarried⟩ := hjobs.live hr' hlive
    rcases h.kept n r hr hlive' with hall | ⟨cell, hcell, hmore⟩
    · exact .inl hall
    · rw [← hcarried.sentCells] at hcell hmore
      exact .inr ⟨cell, (hheld n r' cell hr' hlive).mpr hcell, hmore⟩
  · obtain ⟨r, hr, hlive', hcarried⟩ := hjobs.live hr' hlive
    have hcell := (hheld n r' cell hr' hlive).mp hcell
    rw [hcarried.sentCells] at hcell ⊢
    exact h.only n r cell hr hlive' hcell

theorem carry (h : Booked jobs tasks produced accepted) (hjobs : jobs.Carries jobs') :
    Booked jobs' tasks produced accepted := by
  refine h.change hjobs (fun task htask => (h.slots task htask).goesOn hjobs.goesOn) fun n r' cell hr' hlive => ?_
  obtain ⟨r, hr, -, hcarried⟩ := hjobs.live hr' hlive
  refine or_congr ⟨?_, ?_⟩ Iff.rfl
  · rintro ⟨q, hq, hpending⟩
    rw [hr'] at hq
    cases hq
    exact ⟨r, hr, hcarried.pendingCell hlive ▸ hpending⟩
  · rintro ⟨q, hq, hpending⟩
    rw [hr] at hq
    cases hq
    exact ⟨r', hr', (hcarried.pendingCell hlive).trans hpending⟩

/-- The slots change, but not those with a cell of a job. -/
theorem retask (h : Booked jobs tasks produced accepted) (htasks : ∀ task ∈ tasks', task.Ok jobs)
    (hsame : ∀ task, task.stage.jobCell?.isSome = true → (task ∈ tasks' ↔ task ∈ tasks)) :
    Booked jobs tasks' produced accepted := by
  refine h.change (.refl jobs) htasks fun n r' cell _ _ => or_congr Iff.rfl ?_
  refine exists_congr fun task => ⟨?_, ?_⟩
  · rintro ⟨hmem, hslot, hcell⟩
    exact ⟨(hsame task (by rw [hcell]; rfl)).mp hmem, hslot, hcell⟩
  · rintro ⟨hmem, hslot, hcell⟩
    exact ⟨(hsame task (by rw [hcell]; rfl)).mpr hmem, hslot, hcell⟩

/-- A slot without a cell of a job ends. -/
theorem endTask (h : Booked jobs tasks produced accepted) (hcell : task.stage.jobCell? = none) :
    Booked jobs (tasks.erase task) produced accepted := by
  refine h.retask (fun other ho => h.slots other (List.mem_of_mem_erase ho)) fun other hother => ?_
  refine ⟨List.mem_of_mem_erase, fun hmem => (List.mem_erase_of_ne ?_).mpr hmem⟩
  rintro rfl
  rw [hcell] at hother
  cases hother

/-- A slot starts without a cell of a job. -/
theorem start (h : Booked jobs tasks produced accepted) (hok : task.Ok jobs)
    (hcell : task.stage.jobCell? = none) : Booked jobs (tasks ++ [task]) produced accepted := by
  refine h.retask (fun other ho => ?_) fun other hother => ?_
  · rcases List.mem_append.mp ho with ho | ho
    · exact h.slots other ho
    · rw [List.mem_singleton.mp ho]
      exact hok
  · rw [List.mem_append, List.mem_singleton]
    refine ⟨fun ho => ho.resolve_right ?_, .inl⟩
    rintro rfl
    rw [hcell] at hother
    cases hother

/-- A slot starts with the cell that its job has kept. -/
theorem startReady (h : Booked jobs tasks produced accepted) (hok : task.Ok jobs)
    (hr : jobs.get n = some r) (hslot : task.jobSlot = some ⟨n, r.sentCells⟩)
    (hcell : task.stage.jobCell? = r.pendingCell) : Booked jobs (tasks ++ [task]) produced accepted := by
  refine h.change (.refl jobs) (fun other ho => ?_) fun m q cell hq _ => ?_
  · rcases List.mem_append.mp ho with ho | ho
    · exact h.slots other ho
    · rw [List.mem_singleton.mp ho]
      exact hok
  · refine ⟨?_, ?_⟩
    · rintro (hpending | ⟨other, ho, hoslot, hocell⟩)
      · exact .inl hpending
      · rcases List.mem_append.mp ho with ho | ho
        · exact .inr ⟨other, ho, hoslot, hocell⟩
        · rw [List.mem_singleton.mp ho] at hoslot hocell
          rw [hslot] at hoslot
          obtain ⟨rfl, -⟩ := CoverJobSlot.mk.inj (Option.some.inj hoslot)
          exact .inl ⟨r, hr, hcell ▸ hocell⟩
    · rintro (hpending | ⟨other, ho, hoslot, hocell⟩)
      · exact .inl hpending
      · exact .inr ⟨other, List.mem_append_left _ ho, hoslot, hocell⟩

/-- A slot keeps its cell at the next stage. -/
theorem restage (h : Booked jobs tasks produced accepted) (hmem : task ∈ tasks) {stage : Stage}
    (hok : ({ task with stage } : SlotTask).Ok jobs) (hcell : stage.jobCell? = task.stage.jobCell?) :
    Booked jobs (tasks.erase task ++ [{ task with stage }]) produced accepted := by
  refine h.change (.refl jobs) (fun other ho => ?_) fun m q cell hq _ => or_congr Iff.rfl ⟨?_, ?_⟩
  · rcases List.mem_append.mp ho with ho | ho
    · exact h.slots other (List.mem_of_mem_erase ho)
    · rw [List.mem_singleton.mp ho]
      exact hok
  · rintro ⟨other, ho, hoslot, hocell⟩
    rcases List.mem_append.mp ho with ho | ho
    · exact ⟨other, List.mem_of_mem_erase ho, hoslot, hocell⟩
    · rw [List.mem_singleton.mp ho] at hoslot hocell
      exact ⟨task, hmem, hoslot, hcell ▸ hocell⟩
  · rintro ⟨other, ho, hoslot, hocell⟩
    by_cases hother : other = task
    · subst hother
      exact ⟨_, List.mem_append_right _ List.mem_cons_self, hoslot, hcell.trans hocell⟩
    · exact ⟨other, List.mem_append_left _ ((List.mem_erase_of_ne hother).mpr ho), hoslot, hocell⟩

/-- The jobs other than `n` and their cells do not change. -/
theorem others {produced' accepted' : Book} (h : Booked jobs tasks produced accepted)
    (hget : ∀ m, m ≠ n → jobs'.get m = jobs.get m)
    (hheld : ∀ m index cell, m ≠ n →
      (CellHeld jobs' tasks' m index cell ↔ CellHeld jobs tasks m index cell))
    (hproduced : ∀ m, m ≠ n → produced' m = produced m)
    (haccepted : ∀ m, m ≠ n → accepted' m = accepted m) (hslots : ∀ task ∈ tasks', task.Ok jobs')
    {r' : JobRuntime} (hr' : jobs'.get n = some r')
    (hinOrder : (accepted' n).map Prod.fst = (List.range r'.sentCells).map some)
    (honce : accepted' n <+: produced' n)
    (hkept : r'.settled = false → produced' n = accepted' n ∨ ∃ cell,
      CellHeld jobs' tasks' n r'.sentCells cell ∧
        produced' n = accepted' n ++ [(some r'.sentCells, cell)])
    (honly : ∀ cell, r'.settled = false → CellHeld jobs' tasks' n r'.sentCells cell →
      produced' n = accepted' n ++ [(some r'.sentCells, cell)]) :
    Booked jobs' tasks' produced' accepted' := by
  refine ⟨hslots, fun m hm => ?_, fun m q hq => ?_, fun m => ?_, fun m q hq hlive => ?_,
    fun m q cell hq hlive hcell => ?_⟩
  all_goals by_cases hmn : m = n
  · subst hmn
    rw [hr'] at hm
    cases hm
  · rw [hproduced m hmn, haccepted m hmn]
    exact h.fresh m (hget m hmn ▸ hm)
  · subst hmn
    rw [hr'] at hq
    cases hq
    exact hinOrder
  · rw [haccepted m hmn]
    exact h.inOrder m q (hget m hmn ▸ hq)
  · subst hmn
    exact honce
  · rw [hproduced m hmn, haccepted m hmn]
    exact h.once m
  · subst hmn
    rw [hr'] at hq
    cases hq
    exact hkept hlive
  · rw [hproduced m hmn, haccepted m hmn]
    refine (h.kept m q (hget m hmn ▸ hq) hlive).imp_right fun ⟨cell, hcell, hmore⟩ => ?_
    exact ⟨cell, (hheld m _ cell hmn).mpr hcell, hmore⟩
  · subst hmn
    rw [hr'] at hq
    cases hq
    exact honly cell hlive hcell
  · rw [hproduced m hmn, haccepted m hmn]
    exact h.only m q cell (hget m hmn ▸ hq) hlive ((hheld m _ cell hmn).mp hcell)

end Booked

/-- A slot of job `n` holds no cell of another job. -/
theorem cellHeld_erase {jobs jobs' : Jobs} {tasks : List SlotTask} {task : SlotTask} {n m index : Nat}
    {asked : Nat} {cell : Bytes} (hget : jobs'.get m = jobs.get m)
    (hslot : task.jobSlot = some ⟨n, asked⟩) (hm : m ≠ n) :
    CellHeld jobs' (tasks.erase task) m index cell ↔ CellHeld jobs tasks m index cell := by
  unfold CellHeld
  rw [hget]
  refine or_congr Iff.rfl (exists_congr fun other => and_congr_left fun hother => ?_)
  refine List.mem_erase_of_ne ?_
  rintro rfl
  rw [hslot] at hother
  obtain ⟨rfl, -⟩ := CoverJobSlot.mk.inj (Option.some.inj hother.1)
  exact hm rfl

namespace Booked

variable {jobs jobs' : Jobs} {tasks tasks' : List SlotTask} {produced accepted : Book} {n index : Nat}
  {r : JobRuntime} {task : SlotTask} {cell : Bytes}

/-- The cell of a slot goes back to its job. -/
theorem takeBack (h : Booked jobs tasks produced accepted) (hmem : task ∈ tasks)
    (hr : jobs.get n = some r) (hlive : r.settled = false)
    (hslot : task.jobSlot = some ⟨n, r.sentCells⟩) (hcell : task.stage.jobCell? = some cell)
    (hget : ∀ m, jobs'.get m =
      if m = n then some { r with pendingCell := some cell } else jobs.get m) :
    Booked jobs' (tasks.erase task) produced accepted := by
  have hmore := h.only n r cell hr hlive (.inr ⟨task, hmem, hslot, hcell⟩)
  have hr' : jobs'.get n = some { r with pendingCell := some cell } := by rw [hget, if_pos rfl]
  have hother : ∀ m, m ≠ n → jobs'.get m = jobs.get m := fun m hm => by rw [hget, if_neg hm]
  refine h.others hother (fun m i c hm => cellHeld_erase (hother m hm) hslot hm) (fun _ _ => rfl)
    (fun _ _ => rfl) (fun other ho => ?_) hr' (h.inOrder n r hr) (h.once n)
    (fun _ => .inr ⟨cell, .inl ⟨_, hr', rfl⟩, hmore⟩) fun c _ hc => ?_
  · exact (h.slots other (List.mem_of_mem_erase ho)).goesOn
      (.of_one hr hget rfl (Nat.le_refl _) hlive)
  · rcases hc with ⟨q, hq, hpending⟩ | ⟨other, ho, hoslot, hocell⟩
    · rw [hr'] at hq
      cases hq
      cases hpending
      exact hmore
    · exact h.only n r c hr hlive (.inr ⟨other, List.mem_of_mem_erase ho, hoslot, hocell⟩)

/-- A slot with a cell of a settled job ends. -/
theorem drop (h : Booked jobs tasks produced accepted) (hr : jobs.get n = some r)
    (hsettled : r.settled = true) (hslot : task.jobSlot = some ⟨n, index⟩) :
    Booked jobs (tasks.erase task) produced accepted := by
  refine h.others (fun _ _ => rfl) (fun m i c hm => cellHeld_erase rfl hslot hm) (fun _ _ => rfl)
    (fun _ _ => rfl) (fun other ho => h.slots other (List.mem_of_mem_erase ho)) hr (h.inOrder n r hr)
    (h.once n) (fun hlive => ?_) fun c hlive _ => ?_
  · rw [hsettled] at hlive
    cases hlive
  · rw [hsettled] at hlive
    cases hlive

/-- `nextCell` produces the cell that its job waits for. -/
theorem produce (h : Booked jobs tasks produced accepted) {request : CoverSendRequest}
    (hr : jobs.get n = some r) (hslot : task.jobSlot = some ⟨n, index⟩)
    (hcell : request.jobCell? = some cell) (hstage : task.stage.jobCell? = none)
    (hok : ({ task with stage := .ready request } : SlotTask).Ok jobs)
    (hlacks : r.settled = false → index = r.sentCells ∧ ∀ c, ¬ CellHeld jobs tasks n r.sentCells c) :
    Booked jobs (tasks.erase task ++ [{ task with stage := .ready request }])
      (produced.write (some (n, some index, cell))) accepted := by
  have hready : (Stage.ready request).jobCell? = some cell := hcell
  have hwritten : (produced.write (some (n, some index, cell))) n =
      produced n ++ [(some index, cell)] := Function.update_self ..
  -- the slots other than the new one are old slots, and only these held a cell before
  have hheld : ∀ m i c, CellHeld jobs (tasks.erase task ++ [{ task with stage := .ready request }]) m i c ↔
      CellHeld jobs tasks m i c ∨ (m = n ∧ i = index ∧ c = cell) := by
    intro m i c
    refine ⟨?_, ?_⟩
    · rintro (hpending | ⟨other, ho, hoslot, hocell⟩)
      · exact .inl (.inl hpending)
      · rcases List.mem_append.mp ho with ho | ho
        · exact .inl (.inr ⟨other, List.mem_of_mem_erase ho, hoslot, hocell⟩)
        · rw [List.mem_singleton.mp ho] at hoslot hocell
          change task.jobSlot = _ at hoslot
          rw [hslot] at hoslot
          obtain ⟨rfl, rfl⟩ := CoverJobSlot.mk.inj (Option.some.inj hoslot)
          exact .inr ⟨rfl, rfl, Option.some.inj (hocell.symm.trans hready)⟩
    · rintro ((hpending | ⟨other, ho, hoslot, hocell⟩) | ⟨rfl, rfl, rfl⟩)
      · exact .inl hpending
      · refine .inr ⟨other, List.mem_append_left _ ((List.mem_erase_of_ne ?_).mpr ho), hoslot, hocell⟩
        rintro rfl
        rw [hstage] at hocell
        cases hocell
      · exact .inr ⟨_, List.mem_append_right _ List.mem_cons_self, hslot, hready⟩
  refine h.others (fun _ _ => rfl) (fun m i c hm => ?_) (fun m hm => Function.update_of_ne hm ..)
    (fun _ _ => rfl) (fun other ho => ?_) hr (h.inOrder n r hr) ?_ (fun hlive => ?_) fun c hlive hc => ?_
  · rw [hheld]
    exact or_iff_left fun hsame => hm hsame.1
  · rcases List.mem_append.mp ho with ho | ho
    · exact h.slots other (List.mem_of_mem_erase ho)
    · rw [List.mem_singleton.mp ho]
      exact hok
  · rw [hwritten]
    exact (h.once n).trans (List.prefix_append _ _)
  · obtain ⟨rfl, hnone⟩ := hlacks hlive
    have hall := (h.kept n r hr hlive).resolve_right fun ⟨c, hc, _⟩ => hnone c hc
    exact .inr ⟨cell, (hheld _ _ _).mpr (.inr ⟨rfl, rfl, rfl⟩), by rw [hwritten, hall]⟩
  · obtain ⟨rfl, hnone⟩ := hlacks hlive
    have hall := (h.kept n r hr hlive).resolve_right fun ⟨c, hc, _⟩ => hnone c hc
    rcases (hheld _ _ _).mp hc with hc | ⟨-, -, rfl⟩
    · exact absurd hc (hnone c)
    · rw [hwritten, hall]

/-- The transport accepts the cell that its job is at. -/
theorem accept (h : Booked jobs tasks produced accepted) (hmem : task ∈ tasks)
    (hr : jobs.get n = some r) (hlive : r.settled = false)
    (hslot : task.jobSlot = some ⟨n, r.sentCells⟩) (hcell : task.stage.jobCell? = some cell)
    {r' : JobRuntime} (hget : ∀ m, jobs'.get m = if m = n then some r' else jobs.get m)
    (hjob : r'.job = r.job) (hsent : r'.sentCells = r.sentCells + 1)
    (hpending : r'.settled = false → r'.pendingCell = none) :
    Booked jobs' (tasks.erase task) produced
      (accepted.write (some (n, some r.sentCells, cell))) := by
  have hmore := h.only n r cell hr hlive (.inr ⟨task, hmem, hslot, hcell⟩)
  have hr' : jobs'.get n = some r' := by rw [hget, if_pos rfl]
  have hother : ∀ m, m ≠ n → jobs'.get m = jobs.get m := fun m hm => by rw [hget, if_neg hm]
  have hwritten : (accepted.write (some (n, some r.sentCells, cell))) n =
      accepted n ++ [(some r.sentCells, cell)] := Function.update_self ..
  refine h.others hother (fun m i c hm => cellHeld_erase (hother m hm) hslot hm) (fun _ _ => rfl)
    (fun m hm => Function.update_of_ne hm ..) (fun other ho => ?_) hr' ?_ ?_ (fun _ => .inl ?_)
    fun c hlive' hc => ?_
  · exact (h.slots other (List.mem_of_mem_erase ho)).goesOn
      (.of_one hr hget hjob (by rw [hsent]; exact Nat.le_succ _) hlive)
  · rw [hwritten, List.map_append, h.inOrder n r hr, hsent, List.range_succ, List.map_append]
    rfl
  · exact ⟨[], by rw [List.append_nil, hwritten, hmore]⟩
  · rw [hwritten, hmore]
  · -- no slot has asked for the next cell, and the job keeps none
    rcases hc with ⟨q, hq, hkeeps⟩ | ⟨other, ho, hoslot, -⟩
    · rw [hr'] at hq
      cases hq
      rw [hpending hlive'] at hkeeps
      cases hkeeps
    · obtain ⟨q, hq, hindex⟩ := (h.slots other (List.mem_of_mem_erase ho)).slot _ hoslot
      rw [hr] at hq
      cases hq
      rw [hsent] at hindex
      exact absurd hindex (Nat.not_succ_le_self _)

/-- A new job has sent nothing. -/
theorem enqueue (h : Booked jobs tasks produced accepted)
    (hruntimes : jobs'.runtimes = jobs.runtimes ++ [r]) (hsent : r.sentCells = 0)
    (hpending : r.pendingCell = none) : Booked jobs' tasks produced accepted := by
  have hnone := jobs.get_length
  have hget : ∀ m, jobs'.get m = if m = jobs.runtimes.length then some r else jobs.get m := by
    intro m
    rw [← jobs.get_concat r, ← hruntimes]
    rfl
  have hother : ∀ m, m ≠ jobs.runtimes.length → jobs'.get m = jobs.get m := fun m hm => by
    rw [hget, if_neg hm]
  have hr' : jobs'.get jobs.runtimes.length = some r := by rw [hget, if_pos rfl]
  obtain ⟨hproduced, haccepted⟩ := h.fresh _ hnone
  have hgoes : jobs.GoesOn jobs' := by
    intro m q hq
    refine ⟨q, ?_, rfl, Nat.le_refl _, fun h => h⟩
    rw [hother m, hq]
    rintro rfl
    rw [hnone] at hq
    cases hq
  refine h.others hother (fun m i c hm => ?_) (fun _ _ => rfl) (fun _ _ => rfl)
    (fun task htask => (h.slots task htask).goesOn hgoes) hr' ?_ (h.once _) (fun _ => .inl ?_)
    fun c _ hc => ?_
  · unfold CellHeld
    rw [hother m hm]
  · rw [haccepted, hsent]
    rfl
  · rw [hproduced, haccepted]
  · rcases hc with ⟨q, hq, hkeeps⟩ | ⟨task, htask, hslot, -⟩
    · rw [hr'] at hq
      cases hq
      rw [hpending] at hkeeps
      cases hkeeps
    · obtain ⟨q, hq, -⟩ := (h.slots task htask).slot _ hslot
      rw [hnone] at hq
      cases hq

end Booked

/-! ## What the operations do to the books -/

variable {options : CoverSchedulerOptions} {s : CoverScheduler} {tasks : List SlotTask}
  {produced accepted : Book} {task : SlotTask} {request : CoverSendRequest} {cell : Bytes}

theorem SlotTask.Ok.of_bare {jobs : Jobs} (hslot : ∀ jobSlot, task.jobSlot = some jobSlot →
      ∃ r, jobs.get jobSlot.runtime = some r ∧ jobSlot.jobCellIndex ≤ r.sentCells)
    (hasked : ∀ n job, task.stage ≠ .nextCell n job)
    (hbears : ∀ request, task.stage.request? = some request → request.jobCell? = none) :
    task.Ok jobs := by
  refine ⟨hslot, fun n job hstage => absurd hstage (hasked n job), fun request hrequest hcell => ?_⟩
  rw [hbears request hrequest] at hcell
  cases hcell

theorem SlotTask.Ok.of_waiting {jobs : Jobs} (hslot : ∀ jobSlot, task.jobSlot = some jobSlot →
      ∃ r, jobs.get jobSlot.runtime = some r ∧ jobSlot.jobCellIndex ≤ r.sentCells)
    (hasked : ∀ n job, task.stage ≠ .nextCell n job) (hnone : task.stage.request? = none) :
    task.Ok jobs := by
  refine .of_bare hslot hasked fun request hrequest => ?_
  rw [hnone] at hrequest
  cases hrequest

/-- A slot starts on a lane. -/
theorem Booked.startSlot (h : Booked s.jobs tasks produced accepted) {generation serial : Nat}
    {slot : CoverSlot} {job : Option Nat} (hjob : ∀ n, job = some n → (s.jobs.get n).isSome = true) :
    Booked s.jobs (tasks ++
      [⟨generation, slot, serial, jobSlot s.jobs job, requestForSlot s.jobs job slot⟩])
      produced accepted := by
  cases job with
  | none =>
    refine h.start (.of_waiting (fun _ hslot => ?_) (fun _ _ hstage => Stage.noConfusion hstage) rfl) rfl
    cases hslot
  | some n =>
    obtain ⟨r, hr⟩ := Option.isSome_iff_exists.mp (hjob n rfl)
    have hslot : jobSlot s.jobs (some n) = some ⟨n, r.sentCells⟩ := by
      unfold jobSlot
      rw [Option.bind_some, hr]
      rfl
    have hindex : ∀ js, some (⟨n, r.sentCells⟩ : CoverJobSlot) = some js →
        ∃ r, s.jobs.get js.runtime = some r ∧ js.jobCellIndex ≤ r.sentCells := by
      intro js hjs
      cases hjs
      exact ⟨r, hr, Nat.le_refl _⟩
    rw [hslot]
    unfold requestForSlot
    dsimp only
    rw [hr]
    dsimp only
    split
    · exact h.start (.of_waiting hindex (fun _ _ hstage => Stage.noConfusion hstage) rfl) rfl
    · split
      · split
        · refine h.start (.of_bare hindex (fun _ _ hstage => Stage.noConfusion hstage)
            fun request hrequest => ?_) rfl
          cases hrequest
          rfl
        · exact h.start (.of_waiting hindex (fun _ _ hstage => Stage.noConfusion hstage) rfl) rfl
      · split
        · split
          · rename_i cell hpending
            refine h.startReady ⟨hindex, fun _ _ hstage => Stage.noConfusion hstage,
              fun request hrequest _ => ?_⟩ hr rfl hpending.symm
            cases hrequest
            exact ⟨_, r, rfl, hr, rfl, fun _ => rfl⟩
          · refine h.start ⟨hindex, fun m job hstage => ?_, fun _ hrequest => ?_⟩ rfl
            · cases hstage
              exact ⟨_, r, rfl, hr, rfl⟩
            · cases hrequest
        · exact h.start (.of_waiting hindex (fun _ _ hstage => Stage.noConfusion hstage) rfl) rfl

/-- To keep a cell that is not of a job changes no account. -/
theorem cachedJobs_carries (task : SlotTask) (hcell : request.jobCell? = none) :
    s.jobs.Carries (s.cachedJobs task request) := by
  unfold CoverScheduler.cachedJobs
  split
  · exact .refl _
  · refine .update _ fun r _ => ?_
    split
    case isTrue => exact ⟨rfl, rfl, fun _ => rfl, fun _ => rfl⟩
    case isFalse hlive =>
      split
      · exact ⟨rfl, rfl, fun hsettled => absurd hsettled hlive, fun _ => rfl⟩
      · rename_i hsource
        unfold CoverSendRequest.jobCell? at hcell
        rw [hsource] at hcell
        cases hcell
      · exact ⟨rfl, rfl, fun _ => rfl, fun _ => rfl⟩

/-- A cell of an unsettled job is kept by it. -/
theorem cachedJobs_live (hsound : Sound s) (task : SlotTask) {n : Nat} {r : JobRuntime}
    (hr : s.jobs.get n = some r) (hlive : r.settled = false) (hid : request.jobId = some r.job.id)
    (hcell : request.jobCell? = some cell) (m : Nat) :
    (s.cachedJobs task request).get m =
      if m = n then some { r with pendingCell := some cell } else s.jobs.get m := by
  have hfound : (request.jobId.bind s.jobs.byId.get).or (s.laneJob task) = some n := by
    rw [hid, Option.bind_some, hsound.placed.byId_self hr hlive]
    rfl
  unfold CoverScheduler.cachedJobs
  rw [hfound]
  dsimp only
  by_cases hm : m = n
  · subst hm
    rw [Jobs.get_update_self _ hr, if_pos rfl, if_neg (by rw [hlive]; exact Bool.false_ne_true)]
    unfold CoverSendRequest.jobCell? at hcell
    split at hcell
    · rename_i hsource
      cases hcell
      rw [hsource]
    · cases hcell
  · rw [Jobs.get_update_ne _ hm, if_neg hm]

/-- A cell of a settled job whose id is free is kept by none. -/
theorem cachedJobs_settled {n index : Nat} {r : JobRuntime} (hr : s.jobs.get n = some r)
    (hsettled : r.settled = true) (hid : request.jobId = some r.job.id)
    (hfree : s.jobs.byId.get r.job.id = none) (hslot : task.jobSlot = some ⟨n, index⟩)
    (hlane : ∀ m, s.laneJob task = some m → ∃ index, task.jobSlot = some ⟨m, index⟩) (m : Nat) :
    (s.cachedJobs task request).get m = s.jobs.get m := by
  have hfound : (request.jobId.bind s.jobs.byId.get).or (s.laneJob task) = s.laneJob task := by
    rw [hid, Option.bind_some, hfree]
    rfl
  unfold CoverScheduler.cachedJobs
  rw [hfound]
  cases hjob : s.laneJob task with
  | none => rfl
  | some k =>
    dsimp only
    obtain ⟨index', hslot'⟩ := hlane k hjob
    rw [hslot] at hslot'
    obtain ⟨rfl, -⟩ := CoverJobSlot.mk.inj (Option.some.inj hslot')
    by_cases hm : m = n
    · subst hm
      rw [Jobs.get_update_self _ hr, if_pos hsettled, hr]
    · rw [Jobs.get_update_ne _ hm]

/-- A slot ends and its cell is kept for later. -/
theorem Booked.cache (hsound : Sound s) (h : Booked s.jobs tasks produced accepted)
    (hmem : task ∈ tasks)
    (hlane : ∀ m, s.laneJob task = some m → ∃ index, task.jobSlot = some ⟨m, index⟩)
    (hrequest : task.stage.request? = some request)
    (hback : request.jobCell?.isSome = true → ∀ jobSlot, task.jobSlot = some jobSlot →
      s.TakesBack jobSlot) :
    Booked (s.cachedJobs task request) (tasks.erase task) produced accepted := by
  have hstage : task.stage.jobCell? = request.jobCell? := by
    unfold Stage.jobCell?
    rw [hrequest]
    rfl
  cases hcell : request.jobCell? with
  | none => exact (h.carry (cachedJobs_carries task hcell)).endTask (hstage.trans hcell)
  | some cell =>
    have hsome : request.jobCell?.isSome = true := by rw [hcell]; rfl
    obtain ⟨⟨n, index⟩, r, hslot, hr, hid, -⟩ := (h.slots task hmem).bears request hrequest hsome
    have hback := hback hsome _ hslot r hr
    cases hlive : r.settled with
    | false =>
      rw [hlive, if_neg Bool.false_ne_true] at hback
      exact h.takeBack hmem hr hlive (hback ▸ hslot) (hstage.trans hcell)
        (cachedJobs_live hsound task hr hlive hid hcell)
    | true =>
      rw [hlive, if_pos rfl] at hback
      exact (h.drop hr hlive hslot).carry
        (.of_get (cachedJobs_settled hr hlive hid hback hslot hlane))

/-- The lane of a slot still has the job the slot started with, or none. -/
theorem Sound.lane (h : Sound s) (hmem : task ∈ s.tasks) (m : Nat) (hjob : s.laneJob task = some m) :
    ∃ index, task.jobSlot = some ⟨m, index⟩ := by
  obtain ⟨r, hr⟩ := Option.isSome_iff_exists.mp (h.placed.known m (laneJob_mem hjob))
  exact ⟨r.sentCells, (h.held task hmem m r hjob hr).2⟩

/-- The transport accepts a cell. -/
theorem Booked.accepts (hsound : Sound s) (h : Booked s.jobs s.tasks produced accepted)
    (hmem : task ∈ s.tasks) (hstage : task.stage = .sending request)
    (hcounts : request.jobCell?.isSome = true → ∀ jobSlot, task.jobSlot = some jobSlot →
      s.Counts task jobSlot) {now : Rat} :
    Booked (s.acceptedJobs task request) (s.tasks.erase task) produced
      (accepted.write (Event.acceptance (.sent task (.ok true) now) s)) := by
  have hrequest : task.stage.request? = some request := by rw [hstage]; rfl
  have hheld : task.stage.jobCell? = request.jobCell? := by
    unfold Stage.jobCell?
    rw [hrequest]
    rfl
  have hentry : Event.acceptance (.sent task (.ok true) now) s =
      task.jobSlot.bind fun jobSlot =>
        request.jobCell?.map fun cell => (jobSlot.runtime, request.jobCellIndex, cell) := by
    unfold Event.acceptance
    dsimp only
    rw [if_pos hmem, hstage]
    cases task.jobSlot <;> rfl
  rw [hentry]
  cases hcell : request.jobCell? with
  | none =>
    have hnone : (task.jobSlot.bind fun jobSlot => (none : Option Bytes).map fun cell =>
        (jobSlot.runtime, request.jobCellIndex, cell)) = none := by
      cases task.jobSlot <;> rfl
    rw [hnone]
    refine (h.carry ?_).endTask (hheld.trans hcell)
    -- a cancel cell settles its job, a dummy does nothing
    unfold CoverScheduler.acceptedJobs
    split
    · exact .refl _
    · rename_i n _
      split
      · exact .refl _
      · rename_i r hr
        split
        · exact .refl _
        · rename_i hlive
          have hlive : r.settled = false := Bool.not_eq_true _ ▸ hlive
          split
          · exact .settle_update hr hlive rfl rfl hlive
          · rename_i hsource
            unfold CoverSendRequest.jobCell? at hcell
            rw [hsource] at hcell
            cases hcell
          · exact .refl _
  | some cell =>
    have hsome : request.jobCell?.isSome = true := by rw [hcell]; rfl
    obtain ⟨⟨n, index⟩, r, hslot, hr, -, hlabel⟩ := (h.slots task hmem).bears request hrequest hsome
    obtain ⟨hlane, hunsettled⟩ := hcounts hsome _ hslot
    have hlive := hunsettled r hr
    have hcurrent := (hsound.held task hmem n r hlane hr).2
    rw [hslot] at hcurrent
    obtain ⟨-, rfl⟩ := CoverJobSlot.mk.inj (Option.some.inj hcurrent)
    rw [hslot, Option.bind_some, Option.map_some, hlabel hlive]
    obtain ⟨kind, hsource⟩ : ∃ kind, request.source = .job kind := by
      unfold CoverSendRequest.jobCell? at hcell
      split at hcell
      · exact ⟨_, ‹_›⟩
      · cases hcell
    have hlane : s.laneJob task = some n := hlane
    by_cases hlast : (r.sentCells + 1 : Int) = r.job.declaredCellCount
    · let r' : JobRuntime := { r with
        pendingCell := none, sentCells := r.sentCells + 1, completed := true, settled := true,
        state := .terminal }
      refine @Booked.accept _ _ _ _ _ _ _ _ _ h hmem hr hlive hslot (hheld.trans hcell) r' (fun m => ?_)
        rfl rfl nofun
      unfold CoverScheduler.acceptedJobs
      rw [hlane]
      dsimp only
      rw [hr]
      dsimp only
      rw [if_neg (by rw [hlive]; exact Bool.false_ne_true), hsource]
      dsimp only
      rw [if_pos hlast, Jobs.get_settle_update (Jobs.get_update_self _ hr) hlive]
      by_cases hm : m = n
      · rw [if_pos hm, if_pos hm]
      · rw [if_neg hm, if_neg hm, Jobs.get_update_ne _ hm]
    · let r' : JobRuntime := { r with pendingCell := none, sentCells := r.sentCells + 1 }
      refine @Booked.accept _ _ _ _ _ _ _ _ _ h hmem hr hlive hslot (hheld.trans hcell) r' (fun m => ?_)
        rfl rfl fun _ => rfl
      unfold CoverScheduler.acceptedJobs
      rw [hlane]
      dsimp only
      rw [hr]
      dsimp only
      rw [if_neg (by rw [hlive]; exact Bool.false_ne_true), hsource]
      dsimp only
      rw [if_neg hlast]
      by_cases hm : m = n
      · subst hm
        rw [Jobs.get_update_self _ hr, if_pos rfl]
      · rw [Jobs.get_update_ne _ hm, if_neg hm]

/-- The request that an answer of `nextCell` makes. -/
theorem Booked.asks (h : Booked s.jobs tasks produced accepted) (hmem : task ∈ tasks) {n : Nat}
    {job : CoverJob} (hstage : task.stage = .nextCell n job) (cell : Bytes) :
    ∃ index r, task.jobSlot = some ⟨n, index⟩ ∧ s.jobs.get n = some r ∧
      Cover.produced s.jobs task.slot task.stage (.ok (some cell)) =
        .request ⟨cell, .job r.job.kind, task.slot, some r.job.id, some r.sentCells⟩ := by
  obtain ⟨index, r, hslot, hr, rfl⟩ := (h.slots task hmem).asked n job hstage
  refine ⟨index, r, hslot, hr, ?_⟩
  rw [hstage]
  unfold Cover.produced
  dsimp only
  rw [hr]
  rfl

/-- The ready slot is the only one of its generation: it ends as the asking one would. -/
theorem Sound.erase_ready (h : Sound s) (hmem : task ∈ s.tasks) (stage : Stage) :
    (s.tasks.erase task ++ [{ task with stage }]).erase { task with stage } = s.tasks.erase task := by
  have hnew : ({ task with stage } : SlotTask) ∉ s.tasks.erase task := fun hmem' =>
    h.erase_ne hmem hmem' rfl
  rw [List.erase_append_right _ hnew, List.erase_cons_head, List.append_nil]

theorem Booked.after {s' : CoverScheduler} (h : Booked s.jobs s.tasks produced accepted)
    (hkept : Kept s s') : Booked s'.jobs s'.tasks produced accepted := by
  rw [hkept.tasks]
  exact h.carry hkept.jobs

/-- An answer that brings no cell of a job. -/
theorem produced_bare {answer : Except Unit (Option Bytes)} (hwaits : task.stage.isSending = false)
    (hready : ∀ request, task.stage ≠ .ready request)
    (hcell : ∀ n job cell, task.stage = .nextCell n job → answer ≠ .ok (some cell)) :
    Cover.produced s.jobs task.slot task.stage answer = .failed ∨
      (∃ jobId, Cover.produced s.jobs task.slot task.stage answer = .makeDummy jobId) ∨
      ∃ request, Cover.produced s.jobs task.slot task.stage answer = .request request ∧
        request.jobCell? = none := by
  cases hstage : task.stage with
  | ready request => exact absurd hstage (hready request)
  | sending request =>
    rw [hstage] at hwaits
    cases hwaits
  | cancelCell n job =>
    rcases answer with e | (_ | cell)
    · exact .inl rfl
    · exact .inl rfl
    · exact .inr (.inr ⟨_, rfl, rfl⟩)
  | makeDummy jobId =>
    rcases answer with e | (_ | cell)
    · exact .inl rfl
    · exact .inl rfl
    · exact .inr (.inr ⟨_, rfl, rfl⟩)
  | nextCell n job =>
    rcases answer with e | (_ | cell)
    · exact .inl rfl
    · exact .inr (.inl ⟨_, rfl⟩)
    · exact absurd rfl (hcell n job cell hstage)

/-- A producer's answer without a cell of a job. -/
theorem Booked.bare (hsound : Sound s) (h : Booked s.jobs s.tasks produced accepted)
    (hmem : task ∈ s.tasks) {answer : Except Unit (Option Bytes)} (now : Rat)
    (hcell : task.stage.jobCell? = none)
    (hbare : Cover.produced s.jobs task.slot task.stage answer = .failed ∨
      (∃ jobId, Cover.produced s.jobs task.slot task.stage answer = .makeDummy jobId) ∨
      ∃ request, Cover.produced s.jobs task.slot task.stage answer = .request request ∧
        request.jobCell? = none) :
    Booked (finalState ((cellProduced options task answer now).run s)).jobs
      (finalState ((cellProduced options task answer now).run s)).tasks produced accepted := by
  have hended := h.endTask hcell
  have hsteps := @cellProduced_sound options _ hsound _ hmem answer now
  rcases hbare with hfailed | ⟨jobId, hdummy⟩ | ⟨request, hrequest, hnone⟩
  · rw [hfailed] at hsteps
    exact Booked.after hended hsteps
  · rw [hdummy] at hsteps
    have hok : ({ task with stage := .makeDummy jobId } : SlotTask).Ok s.jobs :=
      .of_waiting (h.slots task hmem).slot (fun _ _ hwaits => Stage.noConfusion hwaits) rfl
    exact Booked.after (s := { s with tasks := _ }) (hended.start hok rfl) hsteps
  · rw [hrequest] at hsteps
    dsimp only at hsteps
    split at hsteps
    · exact Booked.after (s := { s with tasks := _, jobs := _ })
        (hended.carry (cachedJobs_carries task hnone)) hsteps
    · have hok : ({ task with stage := .sending request } : SlotTask).Ok s.jobs := by
        refine .of_bare (h.slots task hmem).slot (fun _ _ hwaits => Stage.noConfusion hwaits) fun q hq => ?_
        cases hq
        exact hnone
      exact Booked.after (s := { s with tasks := _, calls := _ }) (hended.start hok hnone) hsteps

theorem production_none {answer : Except Unit (Option Bytes)} {now : Rat}
    (h : ∀ cell, answer = .ok (some cell) → ∀ n job, task.stage ≠ .nextCell n job) :
    Event.production (.produced task answer now) s = none := by
  unfold Event.production
  rcases answer with e | (_ | cell)
  · rfl
  · rfl
  · dsimp only
    split
    · split
      · rename_i hstage _
        exact absurd hstage (h cell rfl _ _)
      · rfl
    · rfl

/-- A producer's answer in turn. -/
theorem Booked.produces (hsound : Sound s) (h : Booked s.jobs s.tasks produced accepted)
    (hmem : task ∈ s.tasks) (hwaits : task.stage.isSending = false)
    {answer : Except Unit (Option Bytes)} {now : Rat}
    (hturn : Event.InTurn options (.produced task answer now) s) :
    Booked (finalState ((cellProduced options task answer now).run s)).jobs
      (finalState ((cellProduced options task answer now).run s)).tasks
      (produced.write (Event.production (.produced task answer now) s)) accepted := by
  have hsteps := @cellProduced_sound options _ hsound _ hmem answer now
  cases hstage : task.stage with
  | sending request =>
    rw [hstage] at hwaits
    cases hwaits
  | ready request =>
    have hnone : Event.production (.produced task answer now) s = none :=
      production_none fun _ _ _ => by rw [hstage]; exact nofun
    have hrequest : task.stage.request? = some request := by rw [hstage]; rfl
    rw [hnone]
    rw [hstage] at hsteps
    dsimp only [Cover.produced] at hsteps
    split at hsteps
    case isTrue hcached =>
      refine Booked.after (s := { s with tasks := _, jobs := _ })
        (h.cache hsound hmem (hsound.lane hmem) hrequest fun hsome jobSlot hslot => ?_) hsteps
      have hback := hturn jobSlot hslot
      rw [hstage] at hback
      exact hback hsome hcached
    case isFalse =>
      refine Booked.after (s := { s with tasks := _, calls := _ }) (h.restage hmem ?_ ?_) hsteps
      · have hok := h.slots task hmem
        refine ⟨hok.slot, fun _ _ hwaits => Stage.noConfusion hwaits, fun q hq => ?_⟩
        cases hq
        exact hok.bears request hrequest
      · rw [hstage]
        rfl
  | cancelCell _ _ | makeDummy _ =>
    have hnone : Event.production (.produced task answer now) s = none :=
      production_none fun _ _ _ => by rw [hstage]; exact nofun
    rw [hnone]
    refine h.bare hsound hmem now (by rw [hstage]; rfl) (produced_bare hwaits ?_ ?_)
    · exact fun _ => by rw [hstage]; exact nofun
    · exact fun _ _ _ hask => by rw [hstage] at hask; cases hask
  | nextCell n job =>
    by_cases hcell : ∃ cell, answer = .ok (some cell)
    · obtain ⟨cell, rfl⟩ := hcell
      obtain ⟨index, r, hslot, hr, hrequest⟩ := h.asks hmem hstage cell
      have hentry : Event.production (.produced task (.ok (some cell)) now) s =
          some (n, some index, cell) := by
        unfold Event.production
        dsimp only
        rw [if_pos hmem, hstage, hslot]
      have hturn := hturn _ hslot
      rw [hstage] at hturn
      obtain ⟨hlacks, hback⟩ := hturn
      rw [hentry]
      rw [hrequest] at hsteps
      dsimp only at hsteps
      -- the answer makes the slot ready; then it goes on as a ready slot does
      let request : CoverSendRequest :=
        ⟨cell, .job r.job.kind, task.slot, some r.job.id, some r.sentCells⟩
      have hready : Booked s.jobs (s.tasks.erase task ++ [{ task with stage := .ready request }]) _ _ :=
        h.produce hr hslot rfl (by rw [hstage]; rfl)
          ⟨(h.slots task hmem).slot, fun _ _ hwaits => Stage.noConfusion hwaits, ?_⟩ (hlacks r hr)
      · have hmem' := List.mem_append_right (s.tasks.erase task)
          (List.mem_singleton_self { task with stage := .ready request })
        split at hsteps
        case isTrue hcached =>
          have hlane := hsound.lane hmem
          have hkept := hready.cache hsound hmem' hlane rfl fun _ jobSlot hslot' => by
            rw [show task.jobSlot = some jobSlot from hslot'] at hslot
            cases hslot
            exact hback hcached
          rw [hsound.erase_ready hmem] at hkept
          exact Booked.after (s := { s with tasks := _, jobs := _ }) hkept hsteps
        case isFalse =>
          have hok : ({ task with stage := .sending request } : SlotTask).Ok s.jobs := by
            refine ⟨(h.slots task hmem).slot, fun _ _ hwaits => Stage.noConfusion hwaits, fun q hq _ => ?_⟩
            cases hq
            exact ⟨_, r, hslot, hr, rfl, fun hlive => by rw [(hlacks r hr hlive).1]⟩
          have hsent := hready.restage hmem' hok rfl
          rw [hsound.erase_ready hmem] at hsent
          exact Booked.after (s := { s with tasks := _, calls := _ }) hsent hsteps
      · intro q hq _
        cases hq
        exact ⟨_, r, hslot, hr, rfl, fun hlive => by rw [(hlacks r hr hlive).1]⟩
    · have hnone : Event.production (.produced task answer now) s = none :=
        production_none fun cell hanswer => absurd ⟨cell, hanswer⟩ hcell
      rw [hnone]
      refine h.bare hsound hmem now (by rw [hstage]; rfl) (produced_bare hwaits ?_ ?_)
      · exact fun _ => by rw [hstage]; exact nofun
      · exact fun _ _ cell _ hanswer => hcell ⟨cell, hanswer⟩

/-! ## Runs -/

/-- Every step leaves a sound scheduler. -/
theorem step_sound (h : Sound s) (event : Event) : Sound (step options event s) := by
  cases event with
  | control control =>
    cases control with
    | start now => exact (start_leads now s (.refl h)).toSound
    | suspend now => exact (suspend_leads now s (.refl h)).toSound
    | resume now => exact (resume_leads now s (.refl h)).toSound
    | stop now => exact (stop_leads now s (.refl h)).toSound
    | timer firedAt => exact (timerFired_leads firedAt h).elim (·.toSound) (·.toSound)
  | enqueue job => exact (enqueue_sound h job).1
  | cancel jobId => exact (cancel_kept h jobId).toSound
  | complete jobId => exact (complete_kept h jobId).toSound
  | produced task answer now =>
    unfold step
    dsimp only
    split
    case isFalse => exact h
    case isTrue hmem =>
      have hsteps := @cellProduced_sound options _ h _ hmem.1 answer now
      split at hsteps
      · exact hsteps.toSound
      · exact hsteps.toSound
      · split at hsteps <;> exact hsteps.toSound
  | sent task answer now =>
    unfold step
    dsimp only
    split
    · rename_i request _
      split
      case isFalse => exact h
      case isTrue hmem =>
        by_cases hanswer : answer = .ok true
        · subst hanswer
          exact (cellSent_accepted h hmem request now).1
        · exact (cellSent_refused h task request hanswer now).toSound
    · exact h

/-- Every step in turn keeps the books. -/
theorem Ledger.step_booked {ledger : Ledger} (hsound : Sound ledger.scheduler)
    (h : Booked ledger.scheduler.jobs ledger.scheduler.tasks ledger.produced ledger.accepted)
    {event : Event} (hturn : event.InTurn options ledger.scheduler) :
    Booked (ledger.step options event).scheduler.jobs (ledger.step options event).scheduler.tasks
      (ledger.step options event).produced (ledger.step options event).accepted := by
  obtain ⟨s, produced, accepted⟩ := ledger
  cases event with
  | control control =>
    cases control with
    | start now => exact h.after (start_leads now s (.refl hsound))
    | suspend now => exact h.after (suspend_leads now s (.refl hsound))
    | resume now => exact h.after (resume_leads now s (.refl hsound))
    | stop now => exact h.after (stop_leads now s (.refl hsound))
    | timer firedAt =>
      rcases @timerFired_leads options _ firedAt hsound with hkept | hstarted
      · exact h.after hkept
      · obtain ⟨generation, slot, serial, job, hjob, htasks⟩ := hstarted.tasks
        have hjobs := hstarted.jobs
        rw [hjobs] at hjob htasks
        have hbooked := @Booked.startSlot _ _ _ _ h generation serial slot _ hjob
        rw [← htasks, ← hjobs] at hbooked
        exact hbooked
  | enqueue job =>
    obtain ⟨-, htasks, hsame | ⟨r, hsent, hpending, hruntimes⟩⟩ :=
      @enqueue_sound options _ hsound job
    · have hstep : Cover.step options (.enqueue job) s = s := hsame
      show Booked (Cover.step options (.enqueue job) s).jobs
        (Cover.step options (.enqueue job) s).tasks produced accepted
      rw [hstep]
      exact h
    · have hbooked := h.enqueue hruntimes hsent hpending
      rw [← htasks] at hbooked
      exact hbooked
  | cancel jobId => exact h.after (cancel_kept hsound jobId)
  | complete jobId => exact h.after (complete_kept hsound jobId)
  | produced task answer now =>
    show Booked (Cover.step options (.produced task answer now) s).jobs
      (Cover.step options (.produced task answer now) s).tasks (produced.write _) accepted
    by_cases hmem : task ∈ s.tasks ∧ task.stage.isSending = false
    · have hstep : Cover.step options (.produced task answer now) s =
        finalState ((cellProduced options task answer now).run s) := if_pos hmem
      rw [hstep]
      exact h.produces hsound hmem.1 hmem.2 hturn
    · have hstep : Cover.step options (.produced task answer now) s = s := if_neg hmem
      have hnone : Event.production (.produced task answer now) s = none := by
        by_cases htask : task ∈ s.tasks
        · refine production_none fun _ _ n job hstage => hmem ⟨htask, ?_⟩
          rw [hstage]
          rfl
        · unfold Event.production
          split
          · rename_i heq
            cases heq
            rw [if_neg htask]
          · rfl
      rw [hstep, hnone]
      exact h
  | sent task answer now =>
    show Booked (Cover.step options (.sent task answer now) s).jobs
      (Cover.step options (.sent task answer now) s).tasks produced (accepted.write _)
    by_cases hmem : task ∈ s.tasks ∧ ∃ request, task.stage = .sending request
    · obtain ⟨hmem, request, hstage⟩ := hmem
      have hstep : Cover.step options (.sent task answer now) s =
          finalState ((cellSent options task request answer now).run s) := by
        unfold Cover.step
        dsimp only
        rw [hstage]
        exact if_pos hmem
      rw [hstep]
      by_cases hanswer : answer = .ok true
      · subst hanswer
        obtain ⟨-, htasks, hjobs⟩ := @cellSent_accepted options _ hsound _ hmem request now
        rw [htasks, hjobs]
        refine h.accepts hsound hmem hstage fun hsome jobSlot hslot => ?_
        have hturn := hturn jobSlot hslot
        rw [hstage] at hturn
        exact hturn hsome
      · have hnone : Event.acceptance (.sent task answer now) s = none := by
          unfold Event.acceptance
          split
          · rename_i heq
            cases heq
            exact absurd rfl hanswer
          · rfl
        have hcached := h.cache hsound hmem (hsound.lane hmem) (by rw [hstage]; rfl)
          fun hsome jobSlot hslot => by
            have hturn := hturn jobSlot hslot
            rw [hstage] at hturn
            have hturn := hturn hsome
            rcases answer with e | (_ | _)
            · exact hturn
            · exact hturn
            · exact absurd rfl hanswer
        rw [hnone]
        exact Booked.after (s := { s with tasks := _, jobs := _ }) hcached
          (cellSent_refused hsound task request hanswer now)
    · have hstep : Cover.step options (.sent task answer now) s = s := by
        unfold Cover.step
        dsimp only
        split
        · rename_i request hstage
          exact if_neg fun htask => hmem ⟨htask, request, hstage⟩
        · rfl
      have hnone : Event.acceptance (.sent task answer now) s = none := by
        unfold Event.acceptance
        split
        · rename_i heq
          cases heq
          split
          · rename_i htask
            split
            · rename_i request _ hstage _
              exact absurd ⟨htask, request, hstage⟩ hmem
            · rfl
          · rfl
        · rfl
      rw [hstep, hnone]
      exact h

theorem Ledger.run_scheduler (events : List Event) (ledger : Ledger) :
    (ledger.run options events).scheduler = runAll options events ledger.scheduler := by
  induction events generalizing ledger with
  | nil => rfl
  | cons event events ih => exact ih (ledger.step options event)

/-- A run in turn keeps the books. -/
theorem Ledger.run_booked {ledger : Ledger} (hsound : Sound ledger.scheduler)
    (h : Booked ledger.scheduler.jobs ledger.scheduler.tasks ledger.produced ledger.accepted)
    {events : List Event} (hturn : Throughout options (Event.InTurn options) events ledger.scheduler) :
    Sound (ledger.run options events).scheduler ∧
      Booked (ledger.run options events).scheduler.jobs (ledger.run options events).scheduler.tasks
        (ledger.run options events).produced (ledger.run options events).accepted := by
  induction events generalizing ledger with
  | nil => exact ⟨hsound, h⟩
  | cons event events ih =>
    exact ih (step_sound hsound event) (ledger.step_booked hsound h hturn.1) hturn.2

/-- A sound scheduler has each job in one place. -/
theorem Sound.places (h : Sound s) {n : Nat} {r : JobRuntime} (hr : s.jobs.get n = some r) :
    s.places n r = 1 := by
  unfold CoverScheduler.places
  cases hlive : r.settled with
  | true =>
    rw [List.count_eq_zero_of_not_mem (h.placed.not_queued hr hlive)]
    rfl
  | false =>
    rw [if_neg Bool.false_ne_true]
    by_cases hqueued : n ∈ s.jobs.queued
    · have hlane : n ∉ s.laneJobs := fun hmem => h.placed.apart n hmem hqueued
      rw [List.count_eq_one_of_mem h.placed.queue hqueued, List.count_eq_zero_of_not_mem hlane]
    · have hlane := (h.placed.placed n r hr hlive).resolve_left hqueued
      rw [List.count_eq_zero_of_not_mem hqueued, List.count_eq_one_of_mem h.placed.single hlane]

theorem Ledger.accounted {ledger : Ledger} (hsound : Sound ledger.scheduler)
    (h : Booked ledger.scheduler.jobs ledger.scheduler.tasks ledger.produced ledger.accepted) :
    Accounted ledger :=
  ⟨fun _ _ hr => hsound.places hr, h.inOrder, h.once, h.kept⟩

theorem new_eq {s₀ : CoverScheduler} (hnew : CoverScheduler.new options = .ok s₀) :
    s₀ = fresh := by
  unfold CoverScheduler.new at hnew
  cases hvalid : validateCoverSchedule options.schedule with
  | error e =>
    rw [hvalid] at hnew
    cases hnew
  | ok u =>
    rw [hvalid, ok_bind, demand_bind] at hnew
    split at hnew
    · cases hnew
      rfl
    · cases hnew

theorem fresh_sound : Sound fresh where
  distinct := List.nodup_nil
  serials _ h := absurd h List.not_mem_nil
  serial _ h := by cases h
  placed := .empty
  bounded _ h := absurd h List.not_mem_nil
  waits _ h := absurd h List.not_mem_nil
  held _ h := absurd h List.not_mem_nil
  opening _ h := by cases h
  busy h := absurd rfl h

theorem fresh_booked : Booked fresh.jobs fresh.tasks (fun _ => []) (fun _ => []) where
  slots _ h := absurd h List.not_mem_nil
  fresh _ _ := ⟨rfl, rfl⟩
  inOrder n r hr := by cases (Jobs.get_empty n).symm.trans hr
  once _ := List.prefix_rfl
  kept n r hr := by cases (Jobs.get_empty n).symm.trans hr
  only n r _ hr := by cases (Jobs.get_empty n).symm.trans hr

/-! ## A settled job stays as it is -/

theorem cachedJobs_frozen {n : Nat} {r : JobRuntime} (hr : s.jobs.get n = some r)
    (hsettled : r.settled = true) : (s.cachedJobs task request).get n = some r := by
  unfold CoverScheduler.cachedJobs
  split
  · exact hr
  · rename_i m _
    by_cases hm : n = m
    · subst hm
      rw [Jobs.get_update_self _ hr, if_pos hsettled]
    · rw [Jobs.get_update_ne _ hm, hr]

theorem acceptedJobs_frozen {n : Nat} {r : JobRuntime} (hr : s.jobs.get n = some r)
    (hsettled : r.settled = true) : (s.acceptedJobs task request).get n = some r := by
  unfold CoverScheduler.acceptedJobs
  split
  · exact hr
  · rename_i m _
    split
    · exact hr
    · rename_i q hq
      split
      · exact hr
      · rename_i hlive
        have hlive : q.settled = false := Bool.not_eq_true _ ▸ hlive
        have hm : n ≠ m := by
          rintro rfl
          rw [hr] at hq
          cases hq
          rw [hsettled] at hlive
          cases hlive
        split
        · rw [Jobs.get_settle_update hq hlive, if_neg hm, hr]
        · dsimp only
          split
          · rw [Jobs.get_settle_update (Jobs.get_update_self _ hq) hlive, if_neg hm, Jobs.get_update_ne _ hm,
              hr]
          · rw [Jobs.get_update_ne _ hm, hr]
        · exact hr

theorem Kept.frozen {s' : CoverScheduler} (h : Kept s s') {n : Nat} {r : JobRuntime}
    (hr : s.jobs.get n = some r) (hsettled : r.settled = true) : s'.jobs.get n = some r := by
  obtain ⟨r', hr', hcarried⟩ := h.jobs.get hr
  rw [hr', hcarried.settled hsettled]

theorem step_frozen (h : Sound s) (event : Event) {n : Nat} {r : JobRuntime}
    (hr : s.jobs.get n = some r) (hsettled : r.settled = true) :
    (step options event s).jobs.get n = some r := by
  cases event with
  | control control =>
    cases control with
    | start now => exact (start_leads now s (.refl h)).frozen hr hsettled
    | suspend now => exact (suspend_leads now s (.refl h)).frozen hr hsettled
    | resume now => exact (resume_leads now s (.refl h)).frozen hr hsettled
    | stop now => exact (stop_leads now s (.refl h)).frozen hr hsettled
    | timer firedAt =>
      rcases @timerFired_leads options _ firedAt h with hkept | hstarted
      · exact hkept.frozen hr hsettled
      · rw [← hstarted.jobs] at hr
        exact hr
  | enqueue job =>
    obtain ⟨-, -, hsame | ⟨q, -, -, hruntimes⟩⟩ := @enqueue_sound options _ h job
    · have hstep : step options (.enqueue job) s = s := hsame
      rw [hstep]
      exact hr
    · show (finalState ((Cover.enqueue options job).run s)).jobs.runtimes[n]? = some r
      rw [hruntimes, Jobs.get_concat, if_neg, hr]
      rintro rfl
      rw [Jobs.get_length] at hr
      cases hr
  | cancel jobId => exact (cancel_kept h jobId).frozen hr hsettled
  | complete jobId => exact (complete_kept h jobId).frozen hr hsettled
  | produced task answer now =>
    unfold step
    dsimp only
    split
    case isFalse => exact hr
    case isTrue hmem =>
      have hsteps := @cellProduced_sound options _ h _ hmem.1 answer now
      split at hsteps
      · exact hsteps.frozen hr hsettled
      · exact hsteps.frozen hr hsettled
      · split at hsteps
        · exact hsteps.frozen (cachedJobs_frozen hr hsettled) hsettled
        · exact hsteps.frozen hr hsettled
  | sent task answer now =>
    unfold step
    dsimp only
    split
    · rename_i request _
      split
      case isFalse => exact hr
      case isTrue hmem =>
        by_cases hanswer : answer = .ok true
        · subst hanswer
          rw [(@cellSent_accepted options _ h _ hmem request now).2.2]
          exact acceptedJobs_frozen hr hsettled
        · exact (cellSent_refused h task request hanswer now).frozen (cachedJobs_frozen hr hsettled)
            hsettled
    · exact hr

theorem runAll_frozen (h : Sound s) (events : List Event) {n : Nat} {r : JobRuntime}
    (hr : s.jobs.get n = some r) (hsettled : r.settled = true) :
    (runAll options events s).jobs.get n = some r := by
  induction events generalizing s with
  | nil => exact hr
  | cons event events ih => exact ih (step_sound h event) (step_frozen h event hr hsettled)

theorem throughout_append {p : Event → CoverScheduler → Prop} {before after : List Event}
    (h : Throughout options p (before ++ after) s) : Throughout options p before s := by
  induction before generalizing s with
  | nil => trivial
  | cons event before ih => exact ⟨h.1, ih h.2⟩

/-- In a run whose answers come in turn, the scheduler agrees with its books at every
moment, and a job that is settled stays as it was. -/
theorem jobs_accounted {s₀ : CoverScheduler} (hnew : CoverScheduler.new options = .ok s₀)
    {events : List Event} (hturn : Throughout options (Event.InTurn options) events s₀)
    (before after : List Event) (hevents : events = before ++ after) :
    Accounted ((Ledger.new s₀).run options before) ∧
      ∀ n r, ((Ledger.new s₀).run options before).scheduler.jobs.get n = some r → r.settled = true →
        (runAll options events s₀).jobs.get n = some r := by
  subst hevents
  obtain rfl := new_eq hnew
  obtain ⟨hsound, hbooked⟩ := @Ledger.run_booked _ (Ledger.new fresh) fresh_sound fresh_booked
    _ (throughout_append hturn)
  refine ⟨Ledger.accounted hsound hbooked, fun n r hr hsettled => ?_⟩
  have hafter := @runAll_frozen options _ hsound after _ _ hr hsettled
  rw [Ledger.run_scheduler] at hafter
  unfold runAll at hafter ⊢
  rw [List.foldl_append]
  exact hafter

/-! ## A late acceptance -/

/-- One lane with two slots in a cycle of a second. -/
def twoSlots : CoverSchedulerOptions :=
  ⟨⟨0, 1000, 1, 2, 1⟩, ⟨fun _ _ => true, fun _ _ => true⟩, 10⟩

theorem twoSlots_new : CoverScheduler.new twoSlots = .ok fresh := by
  have hvalid : validateCoverSchedule twoSlots.schedule = .ok () := by
    have hsome : (validateCoverSchedule twoSlots.schedule).toOption = some () := by decide +kernel
    cases hrun : validateCoverSchedule twoSlots.schedule with
    | ok _ => rfl
    | error e =>
      rw [hrun] at hsome
      cases hsome
  unfold CoverScheduler.new
  rw [hvalid, ok_bind, demand_of (by decide +kernel)]
  rfl

/-- A job of two cells. -/
def letter : CoverJob := ⟨[0x6c], .real, 2, none, false⟩

/-- The first slot of a cycle, which asks for the first cell of the job. -/
def askingSlot (generation serial : Nat) (span : CycleSpan) (stage : Stage) : SlotTask :=
  ⟨generation, slotAt twoSlots.schedule span 0, serial, some ⟨0, 0⟩, stage⟩

/-- The request of that slot. -/
def letterRequest (span : CycleSpan) (cell : Bytes) : CoverSendRequest :=
  ⟨cell, .job .real, slotAt twoSlots.schedule span 0, some [0x6c], some 0⟩

/-- The first cell is sent, and the transport accepts it. -/
def promptRun : List Event :=
  [.enqueue letter, .control (.start 0), .control (.timer 0), .control (.timer 250),
    .produced (askingSlot 2 0 ⟨0, 0, 1000⟩ (.nextCell 0 letter)) (.ok (some [7])) 251,
    .sent (askingSlot 2 0 ⟨0, 0, 1000⟩ (.sending (letterRequest ⟨0, 0, 1000⟩ [7]))) (.ok true) 252]

/-- The scheduler is suspended before the transport accepts the cell; the job asks for
its first cell again in the next cycle. -/
def lateRun : List Event :=
  [.enqueue letter, .control (.start 0), .control (.timer 0), .control (.timer 250),
    .produced (askingSlot 2 0 ⟨0, 0, 1000⟩ (.nextCell 0 letter)) (.ok (some [7])) 251,
    .control (.suspend 252),
    .sent (askingSlot 2 0 ⟨0, 0, 1000⟩ (.sending (letterRequest ⟨0, 0, 1000⟩ [7]))) (.ok true) 253,
    .control (.resume 254), .control (.timer 1000), .control (.timer 1250),
    .produced (askingSlot 7 1 ⟨1, 1000, 2000⟩ (.nextCell 0 letter)) (.ok (some [8])) 1251,
    .sent (askingSlot 7 1 ⟨1, 1000, 2000⟩ (.sending (letterRequest ⟨1, 1000, 2000⟩ [8]))) (.ok true) 1252]

/-- The scheduler before the answers of the prompt run. -/
abbrev promptState (count : Nat) : CoverScheduler := runAll twoSlots (promptRun.take count) fresh

theorem promptRun_inTurn : Throughout twoSlots (Event.InTurn twoSlots) promptRun fresh := by
  refine ⟨trivial, trivial, trivial, trivial, ?_, ?_, trivial⟩
  · show Event.InTurn twoSlots _ (promptState 4)
    intro jobSlot hslot
    cases hslot
    have hget : ((promptState 4).jobs.get 0).map (fun r => (r.sentCells, r.pendingCell)) =
      some (0, none) := by decide +kernel
    have hbare : ∀ task ∈ (promptState 4).tasks, task.stage.jobCell? = none := by decide +kernel
    refine ⟨fun r hr _ => ?_, fun hcached => absurd hcached (by decide +kernel)⟩
    rw [hr] at hget
    obtain ⟨hsent, hpending⟩ := Prod.mk.inj (Option.some.inj hget)
    refine ⟨hsent.symm, fun cell hheld => ?_⟩
    rcases hheld with ⟨q, hq, hq'⟩ | ⟨task, htask, -, hcell⟩
    · rw [hr] at hq
      cases hq
      rw [hpending] at hq'
      cases hq'
    · rw [hbare task htask] at hcell
      cases hcell
  · show Event.InTurn twoSlots _ (promptState 5)
    intro jobSlot hslot
    cases hslot
    have hget : ((promptState 5).jobs.get 0).map (·.settled) = some false := by decide +kernel
    intro _
    refine ⟨by decide +kernel, fun r hr => ?_⟩
    rw [hr] at hget
    exact Option.some.inj hget

theorem jobs_accounted_prompt :
    Accounted ((Ledger.new fresh).run twoSlots promptRun) ∧
      ((Ledger.new fresh).run twoSlots promptRun).accepted 0 = [(some 0, [7])] :=
  ⟨(jobs_accounted twoSlots_new promptRun_inTurn promptRun [] (List.append_nil _).symm).1,
    by decide +kernel⟩

/-- The transport has two cells of the job for the index 0, and the job counts one. -/
theorem late_acceptance :
    CoverScheduler.new twoSlots = .ok fresh ∧
      ((Ledger.new fresh).run twoSlots lateRun).accepted 0 = [(some 0, [7]), (some 0, [8])] ∧
      ¬ Accounted ((Ledger.new fresh).run twoSlots lateRun) := by
  have haccepted : ((Ledger.new fresh).run twoSlots lateRun).accepted 0 =
    [(some 0, [7]), (some 0, [8])] := by decide +kernel
  have hsent : (((Ledger.new fresh).run twoSlots lateRun).scheduler.jobs.get 0).map (·.sentCells) =
    some 1 := by decide +kernel
  refine ⟨twoSlots_new, haccepted, fun h => ?_⟩
  obtain ⟨r, hr, hcount⟩ := Option.map_eq_some_iff.mp hsent
  have hinOrder := h.inOrder 0 r hr
  rw [haccepted, hcount] at hinOrder
  cases hinOrder

end Cover

end P2Party
