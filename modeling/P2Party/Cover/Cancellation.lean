import Mathlib
import P2Party.Cover.Admission
import P2Party.Messages.ChannelLabel

/-!
# Cancelling a scheduled transfer (`handlers/coverTransfer.ts`, `handlers/coverEdge.ts`)

A scheduled transfer is a job of the cover scheduler under the label of its message.
`cancelScheduledTransfer` compiles the label again and cancels the job. The scheduler asks an
admitted job for its CANCEL cell through `cancelCell`; `buildScheduledSendJob` gives the job
no such producer.

- `buildScheduledSendJob`, `cancelScheduledTransfer`: as in the source;
- `acceptedSources`: what the transport accepts on the slots of a job;
- `Cancelled`: what cancelling a transfer should do;
- `cancel_unadmitted`, `cancel_admitted`: what it does.
-/

namespace P2Party

open Base ChannelLabel

namespace Cover

/-! ## Scheduled transfers -/

/-- `buildScheduledSendJob` (coverTransfer.ts:159-202): the job without its producer. It has no
`cancelCell`. -/
def buildScheduledSendJob (capacity totalChunks : Nat) (channelMessageLabel : JsString) :
    Except JsError CoverJob := do
  demand (totalChunks ≤ capacity) (.error s!"coverTransfer: message of {totalChunks} cells exceeds the room F×D capacity of {capacity}")
  return {
    id := channelMessageLabel
    kind := .real
    declaredCellCount := totalChunks
    priority := none
    cancellable := false }

/-- `cancelScheduledTransfer` (coverTransfer.ts:211-221), on an edge with a cover runtime. -/
def cancelScheduledTransfer (channelLabel merkleRootHex : JsString) : SchedulerM Bool := do
  let label ← attempt (compileChannelMessageLabel channelLabel (.hex merkleRootHex))
  let result ← cancel label
  return decide (result ≠ .notFound)

/-! ## What the transport accepts -/

/-- The source of the cell that the transport accepts on a slot of a job. -/
def Event.acceptedSource (event : Event) (n : Nat) (s : CoverScheduler) : Option CoverCellSource :=
  match event with
  | .sent task (.ok true) _ =>
    if task ∈ s.tasks ∧ task.jobSlot.map (·.runtime) = some n then
      match task.stage with
      | .sending request => some request.source
      | _ => none
    else none
  | _ => none

/-- The sources of the cells that the transport accepts on the slots of a job, in a run. -/
def acceptedSources (options : CoverSchedulerOptions) (n : Nat) : List Event → CoverScheduler →
    List CoverCellSource
  | [], _ => []
  | event :: events, s =>
    (event.acceptedSource n s).toList ++ acceptedSources options n events (step options event s)

/-! ## Cancellation -/

/-- Cancelling a transfer after a run does not throw. A job that was never admitted is settled
before its admission, and no slot is ever for it. An admitted one, when it is settled, has had
exactly one CANCEL cell accepted, and nothing but dummies behind it. -/
structure Cancelled (options : CoverSchedulerOptions) (before : List Event)
    (channelLabel merkleRootHex : JsString) (n : Nat) : Prop where
  returns : ∃ routed s', (cancelScheduledTransfer channelLabel merkleRootHex).run (runAll options before fresh) =
    .ok routed s'
  unadmitted : ¬ (runAll options before fresh).jobs.Admitted n →
    ∃ label s', compileChannelMessageLabel channelLabel (.hex merkleRootHex) = .ok label ∧
      (cancel label).run (runAll options before fresh) = .ok .cancelledBeforeAdmission s' ∧
      (∃ r, s'.jobs.get n = some r ∧ r.settled = true) ∧
      ∀ events, events <+: before ∨ before ++ [.cancel label] <+: events →
        ∀ task ∈ (runAll options events fresh).tasks, task.jobSlot.map (·.runtime) ≠ some n
  admitted : (runAll options before fresh).jobs.Admitted n →
    ∃ label, compileChannelMessageLabel channelLabel (.hex merkleRootHex) = .ok label ∧
      ∀ after r, (runAll options (before ++ .cancel label :: after) fresh).jobs.get n = some r → r.settled = true →
        ∃ cells rest, acceptedSources options n (.cancel label :: after) (runAll options before fresh) =
            cells ++ .cancel :: rest ∧
          .cancel ∉ cells ∧ ∀ source ∈ rest, source = .dummy

variable {options : CoverSchedulerOptions} {s : CoverScheduler} {n : Nat} {r : JobRuntime}

theorem live_of_sound (h : Sound s) (hr : s.jobs.get n = some r) (hlive : r.settled = false) :
    s.jobs.live r.job.id = some (n, r) := by
  unfold Jobs.live
  rw [h.placed.byId_self hr hlive]
  dsimp only
  rw [hr]
  dsimp only
  rw [hlive]
  rfl

/-- A job that was never admitted is settled at once. -/
theorem cancel_unadmitted (h : Sound s) (hr : s.jobs.get n = some r) (hlive : r.settled = false)
    (hunmarked : r.everAdmitted = false) :
    ∃ s', (cancel r.job.id).run s = .ok .cancelledBeforeAdmission s' ∧
      s'.jobs.get n = some { r with settled := true, state := .terminal } := by
  refine ⟨{ s with jobs := (s.jobs.removeQueued n).settle n }, ?_, ?_⟩
  · unfold cancel
    rw [run_get_bind, live_of_sound h hr hlive]
    dsimp only
    rw [if_pos hunmarked]
    rfl
  · show ((s.jobs.removeQueued n).settle n).get n = _
    rw [h.placed.settle_removed, Jobs.settle_of_live hr hlive (h.placed.byId_self hr hlive)]
    exact Jobs.get_update_self _ hr

/-- An admitted job without `cancelCell` is left as it is. -/
theorem cancel_admitted (h : Sound s) (hr : s.jobs.get n = some r) (hlive : r.settled = false)
    (hmarked : r.everAdmitted = true) (hcancellable : r.job.cancellable = false) :
    (cancel r.job.id).run s = .error (failure "an admitted cancellable job requires cancelCell") s := by
  unfold cancel
  rw [run_get_bind, live_of_sound h hr hlive]
  dsimp only
  rw [if_neg (by rw [hmarked]; decide), run_ensure_bind, if_neg (by rw [hcancellable]; decide)]

theorem runAll_sound (h : Sound s) (events : List Event) : Sound (runAll options events s) := by
  induction events generalizing s with
  | nil => exact h
  | cons event events ih => exact ih (step_sound h event)

theorem runAll_append (before after : List Event) (s : CoverScheduler) :
    runAll options (before ++ after) s = runAll options after (runAll options before s) :=
  List.foldl_append

/-- What `buildScheduledSendJob` gives the scheduler. -/
theorem buildScheduledSendJob_ok {capacity totalChunks : Nat} {label : JsString} {job : CoverJob}
    (h : buildScheduledSendJob capacity totalChunks label = .ok job) :
    job.id = label ∧ job.cancellable = false := by
  unfold buildScheduledSendJob at h
  rw [demand_bind] at h
  split at h
  · cases h
    exact ⟨rfl, rfl⟩
  · cases h

theorem buildScheduledSendJob_declared {capacity totalChunks : Nat} {label : JsString} {job : CoverJob}
    (h : buildScheduledSendJob capacity totalChunks label = .ok job) : job.declaredCellCount = totalChunks := by
  unfold buildScheduledSendJob at h
  rw [demand_bind] at h
  split at h
  · cases h
    rfl
  · cases h

theorem cancelScheduledTransfer_run {channelLabel merkleRootHex label : JsString}
    (hlabel : compileChannelMessageLabel channelLabel (.hex merkleRootHex) = .ok label) (s : CoverScheduler) :
    (cancelScheduledTransfer channelLabel merkleRootHex).run s =
      (cancel label >>= fun result => pure (decide (result ≠ .notFound))).run s := by
  unfold cancelScheduledTransfer
  rw [run_attempt_bind, hlabel]

/-- Cancelling an admitted transfer throws. -/
theorem cancelScheduledTransfer_admitted (h : Sound s) {channelLabel merkleRootHex label : JsString}
    (hlabel : compileChannelMessageLabel channelLabel (.hex merkleRootHex) = .ok label)
    (hr : s.jobs.get n = some r) (hid : r.job.id = label) (hcancellable : r.job.cancellable = false)
    (hlive : r.settled = false) (hmarked : r.everAdmitted = true) :
    (cancelScheduledTransfer channelLabel merkleRootHex).run s =
      .error (failure "an admitted cancellable job requires cancelCell") s := by
  have hthrows := cancel_admitted h hr hlive hmarked hcancellable
  rw [hid] at hthrows
  rw [cancelScheduledTransfer_run hlabel, EStateM.run_bind, hthrows]

/-- A job that is settled without a mark has no slot, before and after. -/
theorem unadmitted_slots {before : List Event} {event : Event}
    (hbefore : ¬ (runAll options before fresh).jobs.Admitted n)
    (hr : (step options event (runAll options before fresh)).jobs.get n = some r) (hsettled : r.settled = true)
    (hunmarked : r.everAdmitted = false) (events : List Event)
    (hevents : events <+: before ∨ before ++ [event] <+: events) :
    ∀ task ∈ (runAll options events fresh).tasks, task.jobSlot.map (·.runtime) ≠ some n := by
  intro task htask hslot
  obtain ⟨jobSlot, hjobSlot, rfl⟩ := Option.map_eq_some_iff.mp hslot
  have hmark := (runAll_admits events fresh_admits).slots task htask jobSlot hjobSlot
  rcases hevents with ⟨rest, rfl⟩ | ⟨rest, rfl⟩
  · -- a mark before the call would still be there
    apply hbefore
    rw [runAll_append]
    exact admitted_later (runAll_admits events fresh_admits) rest hmark
  · -- after the call the job does not change any more
    rw [runAll_append, runAll_append] at hmark
    have hsound : Sound (step options event (runAll options before fresh)) :=
      step_sound (runAll_sound fresh_sound before) event
    obtain ⟨q, hq, hmark⟩ := hmark
    have hfrozen := @runAll_frozen options _ hsound rest _ _ hr hsettled
    rw [show runAll options [event] (runAll options before fresh) = step options event (runAll options before fresh)
      from rfl, hfrozen] at hq
    cases hq
    rw [hunmarked] at hmark
    cases hmark

/-- Cancelling a transfer that is not settled does what it should exactly if the transfer was
never admitted. -/
theorem scheduled_cancellation (before : List Event)
    {totalChunks : Nat} {channelLabel merkleRootHex label : JsString}
    (hlabel : compileChannelMessageLabel channelLabel (.hex merkleRootHex) = .ok label)
    (hr : (runAll options before fresh).jobs.get n = some r)
    (hbuild : buildScheduledSendJob options.schedule.slotsPerLane totalChunks label = .ok r.job)
    (hlive : r.settled = false) :
    Cancelled options before channelLabel merkleRootHex n ↔ r.everAdmitted = false := by
  obtain ⟨hid, hcancellable⟩ := buildScheduledSendJob_ok hbuild
  have hsound : Sound (runAll options before fresh) := runAll_sound fresh_sound before
  constructor
  · intro h
    obtain ⟨routed, s', hrun⟩ := h.returns
    by_contra hmarked
    rw [cancelScheduledTransfer_admitted hsound hlabel hr hid hcancellable hlive
      ((Bool.not_eq_false _).mp hmarked)] at hrun
    cases hrun
  · intro hunmarked
    obtain ⟨s', hcancel, hsettled⟩ := cancel_unadmitted hsound hr hlive hunmarked
    rw [hid] at hcancel
    have hbefore : ¬ (runAll options before fresh).jobs.Admitted n := by
      rintro ⟨q, hq, hmark⟩
      rw [hr] at hq
      cases hq
      rw [hunmarked] at hmark
      cases hmark
    have hstep : step options (.cancel label) (runAll options before fresh) = s' := by
      unfold step
      dsimp only
      rw [hcancel]
      rfl
    refine ⟨?_, fun _ => ⟨label, s', hlabel, hcancel, ⟨_, hsettled, rfl⟩, ?_⟩, fun hmark => absurd hmark hbefore⟩
    · refine ⟨true, s', ?_⟩
      rw [cancelScheduledTransfer_run hlabel, EStateM.run_bind, hcancel]
      rfl
    · rw [← hstep] at hsettled
      exact unadmitted_slots hbefore hsettled rfl hunmarked

/-! ## A transfer of two cells -/

/-- The name of a channel: `chat`. -/
def sampleName : JsString := [0x63, 0x68, 0x61, 0x74]

/-- The root of a message. -/
def sampleRoot : Bytes := (List.range 64).map UInt8.ofNat

/-- The label of the message. -/
def sampleLabel : JsString := labelOf sampleName sampleRoot

/-- The job of the transfer. -/
def sampleTransfer : CoverJob := ⟨sampleLabel, .real, 2, none, false⟩

/-- Its runtime, before and after its admission. -/
def sampleRuntime (state : JobState) (everAdmitted : Bool) : JobRuntime :=
  ⟨sampleTransfer, 0, state, everAdmitted, 0, false, false, false, false, none, none⟩

theorem sampleLabel_compiled :
    compileChannelMessageLabel sampleName (.hex (hexUnits sampleRoot)) = .ok sampleLabel :=
  (compile_eq ⟨by decide +kernel, by decide +kernel, by decide⟩ rfl).2

theorem sampleTransfer_built : buildScheduledSendJob twoSlots.schedule.slotsPerLane 2 sampleLabel = .ok sampleTransfer := by
  unfold buildScheduledSendJob
  rw [demand_of (by decide)]
  rfl

/-- The scheduler once a transfer of two cells is queued. -/
def queuedTransfer (label : JsString) : CoverScheduler :=
  { fresh with
    jobs := ⟨[⟨⟨label, .real, 2, none, false⟩, 0, .queued, false, 0, false, false, false, false, none, none⟩], [0],
      fresh.jobs.byId.set label 0⟩ }

theorem enqueue_fresh {label : JsString} (h : label.length ≠ 0) :
    step twoSlots (.enqueue ⟨label, .real, 2, none, false⟩) fresh = queuedTransfer label := by
  have hcount : assertSafeInteger "declared cell count" 2 = .ok () := demand_of (by decide)
  show finalState ((enqueue twoSlots ⟨label, .real, 2, none, false⟩).run fresh) = _
  unfold enqueue
  rw [run_get_bind, run_ensure_of h, run_ensure_of (show fresh.jobs.byId.has label = false from rfl),
    run_attempt_bind, hcount]
  dsimp only
  rw [run_ensure_of (by decide)]
  with_unfolding_all rfl

/-- The first cycle begins with the transfer on its lane, whatever its label is. -/
theorem admitted_transfer (label : JsString) :
    (runAll twoSlots [.control (.start 0), .control (.timer 0)] (queuedTransfer label)).jobs.get 0 =
      some ⟨⟨label, .real, 2, none, false⟩, 0, .admitted, true, 0, false, false, false, false, none, none⟩ := by
  with_unfolding_all rfl

theorem sampleTransfer_enqueued :
    step twoSlots (.enqueue sampleTransfer) fresh = queuedTransfer sampleLabel := by
  refine enqueue_fresh ?_
  rw [sampleLabel, length_labelOf rfl]
  decide

theorem sampleTransfer_queued :
    (runAll twoSlots [.enqueue sampleTransfer] fresh).jobs.get 0 = some (sampleRuntime .queued false) := by
  rw [runAll, List.foldl_cons, sampleTransfer_enqueued]
  rfl

/-- The transfer is cancelled while it waits for its first cycle. -/
theorem scheduled_cancellation_queued :
    Cancelled twoSlots [.enqueue sampleTransfer] sampleName (hexUnits sampleRoot) 0 :=
  (@scheduled_cancellation twoSlots 0 (sampleRuntime .queued false) [.enqueue sampleTransfer] 2 _ _ _
    sampleLabel_compiled sampleTransfer_queued sampleTransfer_built rfl).mpr rfl

/-- The first cycle begins with the transfer on its lane. -/
def admittedRun : List Event := [.enqueue sampleTransfer, .control (.start 0), .control (.timer 0)]

/-- The transfer is cancelled when the first cycle has begun. -/
theorem scheduled_cancellation_throws :
    (runAll twoSlots admittedRun fresh).jobs.get 0 = some (sampleRuntime .admitted true) ∧
      (cancelScheduledTransfer sampleName (hexUnits sampleRoot)).run (runAll twoSlots admittedRun fresh) =
        .error (failure "an admitted cancellable job requires cancelCell") (runAll twoSlots admittedRun fresh) ∧
      ¬ Cancelled twoSlots admittedRun sampleName (hexUnits sampleRoot) 0 := by
  have hget : (runAll twoSlots admittedRun fresh).jobs.get 0 = some (sampleRuntime .admitted true) := by
    rw [admittedRun, runAll, List.foldl_cons, sampleTransfer_enqueued]
    exact admitted_transfer sampleLabel
  have hrun := cancelScheduledTransfer_admitted (runAll_sound fresh_sound admittedRun) sampleLabel_compiled hget rfl
    rfl rfl rfl
  refine ⟨hget, hrun, fun h => ?_⟩
  obtain ⟨routed, s', hreturns⟩ := h.returns
  rw [hrun] at hreturns
  cases hreturns

end Cover

end P2Party
